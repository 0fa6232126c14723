import MemoryEngine.Types
import MemoryEngine.Rounding

/-! The arithmetic of the two float types, over the exact values they stand for. -/

namespace MemoryEngine
open Rounding

/-- Single precision. -/
def binary32 : Format := ⟨24,-149,2 ^ 128,by decide⟩

/-- Double precision. -/
def binary64 : Format := ⟨53,-1074,2 ^ 1024,by decide⟩

/-- The number a bit pattern stands for. -/
def F32.datum (x : F32) : Datum :=
  let fraction : Nat := x.toNat % 2 ^ 23
  let biased : Nat := x.toNat / 2 ^ 23 % 2 ^ 8
  let negative := x.toNat / 2 ^ 31 = 1
  if biased = 255 then
    if fraction ≠ 0 then .nan else if negative then .negInfinite else .infinite
  else
    let magnitude : ℚ := if biased = 0 then fraction * 2 ^ (-149 : Int) else ((2 ^ 23 + fraction : Nat) : ℚ) * 2 ^ ((biased : Int) - 150)
    .finite (if negative then -magnitude else magnitude)

namespace F64

def ofDatum : Datum → F64
  | .nan => .nan
  | .negInfinite => .num ⊥
  | .finite q => ofRat q
  | .infinite => .num ⊤

def datum : F64 → Datum
  | .nan => .nan
  | .num none => .negInfinite
  | .num (some none) => .infinite
  | .num (some (some q)) => .finite q

theorem datum_ofDatum (d : Datum) : (ofDatum d).datum = d := by cases d <;> rfl

/-- `+` of doubles. -/
def add (a b : F64) : F64 := ofDatum (a.datum.add binary64 b.datum)

/-- `a * b` of doubles. -/
def mul (a b : F64) : F64 := ofDatum (a.datum.mul binary64 b.datum)

/-- `a / b` of doubles. -/
def div (a b : F64) : F64 := ofDatum (a.datum.div binary64 b.datum)

/-- `a * b + c`, rounded once. -/
def mul_add (a b c : F64) : F64 := ofDatum (a.datum.mul_add binary64 b.datum c.datum)

def neg (a : F64) : F64 := ofDatum a.datum.neg

def min (a b : F64) : F64 := ofDatum (a.datum.min b.datum)

def max (a b : F64) : F64 := ofDatum (a.datum.max b.datum)

/-- An integer as a double. -/
def ofInt (n : Int) : F64 := ofDatum (binary64.round n)

/-- The place of a double in the order of its type, NaN below all. -/
def rank : F64 → WithBot SqlReal
  | .nan => ⊥
  | .num x => x

theorem rank_eq_bot {x : F64} : x.rank = ⊥ ↔ x = .nan := by
  cases x with
  | nan => simp [rank]
  | num x => simp [rank]

theorem ofDatum_eq_nan {d : Datum} : ofDatum d = .nan ↔ d = .nan := by
  cases d <;> simp [ofDatum,ofRat]

theorem datum_eq_nan {x : F64} : x.datum = .nan ↔ x = .nan := by
  match x with
  | .nan => simp [datum]
  | .num none => simp [datum]
  | .num (some none) => simp [datum]
  | .num (some (some q)) => simp [datum]

theorem add_ne_nan {q : ℚ} {b : F64} (number : b ≠ .nan) : (ofRat q).add b ≠ .nan :=
  mt ofDatum_eq_nan.mp (Datum.add_ne_nan (mt datum_eq_nan.mp number))

theorem lt_number {a b : F64} (lower : a.lt b = true) : b ≠ .nan := by
  rintro rfl
  cases a <;> cases lower

/-- A comparison of numbers is one of their places. -/
theorem lt_iff_rank {a b : F64} (number : a ≠ .nan) : a.lt b = true ↔ a.rank < b.rank := by
  cases a with
  | nan => exact absurd rfl number
  | num x =>
    cases b with
    | nan => simp [lt,rank]
    | num y => simp [lt,rank]

end F64

/-- The value of a single as a double. -/
def F32.toF64 (x : F32) : F64 := F64.ofDatum x.datum

example : (F64.ofRat 1).add (F64.ofRat (1 / 2 ^ 60)) = F64.ofRat 1 := by decide +kernel
end MemoryEngine
