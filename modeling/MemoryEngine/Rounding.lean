import Mathlib.Data.Int.Log
import Mathlib.Data.Rat.Floor
import Mathlib.Tactic.Linarith
import Mathlib.Algebra.Order.Field.Power
import Mathlib.Data.Sign.Basic

/-! Numbers of a binary floating-point format and their difference: exact values,
rounded to the nearest representable one, ties to the even significand, gradual
underflow, and infinities beyond the largest finite number. -/

namespace MemoryEngine.Rounding

/-- A binary format: the digits of a significand, the exponent of the least positive
    number and the magnitude from which results overflow. -/
structure Format where
  precision : Nat
  least : Int
  limit : ℚ
  positive : 0 < precision

/-- What a bit pattern of a format stands for. -/
inductive Datum where
  | nan
  | negInfinite
  | finite (q : ℚ)
  | infinite
deriving DecidableEq

namespace Datum

/-- `<=`, false on NaN. -/
def le : Datum → Datum → Bool
  | .nan,_ => false
  | _,.nan => false
  | .negInfinite,_ => true
  | _,.infinite => true
  | .finite p,.finite q => decide (p ≤ q)
  | _,_ => false

theorem le_trans {a b c : Datum} (lower : a.le b = true) (upper : b.le c = true) : a.le c = true := by
  cases a <;> cases b <;> cases c <;> simp only [le,decide_eq_true_eq,Bool.false_eq_true] at lower upper ⊢
  exact lower.trans upper

end Datum

/-- The integer nearest to a rational, the even one of two. -/
def halfEven (q : ℚ) : Int :=
  let low := ⌊q⌋
  if q - low < 1 / 2 then low else
  if 1 / 2 < q - low then low + 1 else
  if low % 2 = 0 then low else low + 1

theorem halfEven_le {q : ℚ} {n : Int} (bound : q ≤ n) : halfEven q ≤ n := by
  have low : ⌊q⌋ ≤ n := Int.floor_le_iff.mpr (lt_of_le_of_lt bound (by linarith))
  have below : ⌊q⌋ = n → q - ⌊q⌋ ≤ 0 := by
    intro same
    rw [same]
    linarith
  unfold halfEven
  simp only []
  split
  · exact low
  · rename_i far
    have room : ⌊q⌋ + 1 ≤ n := by
      refine Int.add_one_le_of_lt (lt_of_le_of_ne low fun same => far ?_)
      exact lt_of_le_of_lt (below same) (by norm_num)
    split
    · exact room
    · split
      · exact low
      · exact room

namespace Format
variable (format : Format)

/-- The spacing exponent of the format around a number. -/
def exponent (q : ℚ) : Int := max (Int.log 2 |q| + 1 - format.precision) format.least

/-- The nearest number of the format, were there no largest one. -/
def nearest (q : ℚ) : ℚ := halfEven (q / 2 ^ format.exponent q) * 2 ^ format.exponent q

/-- The nearest number of the format or an infinity. -/
def round (q : ℚ) : Datum :=
  if format.limit ≤ format.nearest q then .infinite else
  if format.nearest q ≤ -format.limit then .negInfinite else .finite (format.nearest q)

/-- A finite number of the format. -/
def Represents (t : ℚ) : Prop :=
  t < format.limit ∧ ∃ m k : Int, |m| < 2 ^ format.precision ∧ format.least ≤ k ∧ t = m * (2 : ℚ) ^ k

variable {format}

/-- Rounding up to a multiple of the spacing stays below it. -/
theorem nearest_le_grid {q : ℚ} {m k : Int} (fine : format.exponent q ≤ k) (bound : q ≤ m * (2 : ℚ) ^ k) :
    format.nearest q ≤ m * (2 : ℚ) ^ k := by
  have spacing : (0 : ℚ) < 2 ^ format.exponent q := zpow_pos two_pos _
  have whole : (m : ℚ) * 2 ^ k = ((m * 2 ^ (k - format.exponent q).toNat : Int) : ℚ) * 2 ^ format.exponent q := by
    have split : k = (((k - format.exponent q).toNat : Nat) : Int) + format.exponent q := by omega
    conv_lhs => rw [split,zpow_add₀ (by norm_num),zpow_natCast]
    push_cast
    ring
  rw [whole] at bound ⊢
  refine mul_le_mul_of_nonneg_right ?_ spacing.le
  exact_mod_cast halfEven_le ((div_le_iff₀ spacing).mpr bound)

/-- Rounding a number does not lift it above a number of the format. -/
theorem nearest_le {q t : ℚ} (bound : q ≤ t) (represents : format.Represents t) : format.nearest q ≤ t := by
  obtain ⟨_,m,k,digits,above,rfl⟩ := represents
  by_cases zero : q = 0
  · rw [zero] at bound ⊢
    simpa [nearest,halfEven] using bound
  have size : 0 < |q| := abs_pos.mpr zero
  have leading := Int.zpow_log_le_self (b := 2) (by norm_num) size
  push_cast at leading
  by_cases tiny : Int.log 2 |q| + 1 - format.precision ≤ format.least
  · refine nearest_le_grid ?_ bound
    rw [exponent,max_eq_right tiny]
    exact above
  have spacing : format.exponent q = Int.log 2 |q| + 1 - format.precision := max_eq_left (le_of_lt (not_le.mp tiny))
  by_cases far : (2 : ℚ) ^ Int.log 2 |q| ≤ |m * (2 : ℚ) ^ k|
  · -- the bound is at least as coarse as the spacing around the number
    refine nearest_le_grid ?_ bound
    have limited : |(m : ℚ) * 2 ^ k| < 2 ^ ((format.precision : Int) + k) := by
      rw [abs_mul,abs_of_pos (show (0 : ℚ) < 2 ^ k from zpow_pos two_pos k),zpow_add₀ (by norm_num),zpow_natCast]
      refine mul_lt_mul_of_pos_right ?_ (zpow_pos two_pos k)
      exact_mod_cast digits
    have order := (zpow_lt_zpow_iff_right₀ (by norm_num : (1 : ℚ) < 2)).mp (lt_of_le_of_lt far limited)
    rw [spacing]
    omega
  · -- a power of two separates the number from the bound
    have near := not_le.mp far
    have negative : q < 0 := by
      rcases lt_or_gt_of_ne zero with below | beyond
      · exact below
      · rw [abs_of_pos beyond] at leading
        exact absurd (leading.trans (bound.trans (le_abs_self _))) (not_le.mpr (by rwa [abs_of_pos beyond] at near))
    rw [abs_of_neg negative] at leading near
    have pivot : q ≤ ((-1 : Int) : ℚ) * 2 ^ Int.log 2 (-q) := by
      push_cast
      linarith
    have rounded : format.nearest q ≤ ((-1 : Int) : ℚ) * 2 ^ Int.log 2 (-q) := by
      refine nearest_le_grid ?_ pivot
      rw [spacing,abs_of_neg negative]
      have digit := format.positive
      omega
    refine rounded.trans ?_
    have low := neg_abs_le ((m : ℚ) * 2 ^ k)
    push_cast
    linarith

theorem round_le {q t : ℚ} (bound : q ≤ t) (represents : format.Represents t) : (format.round q).le (.finite t) = true := by
  have nearest := nearest_le bound represents
  unfold round
  split
  · rename_i beyond
    exact absurd (beyond.trans nearest) (not_le.mpr represents.1)
  · split
    · rfl
    · exact decide_eq_true nearest

end Format

/-- The difference of two numbers of a format. -/
def Datum.sub (format : Format) : Datum → Datum → Datum
  | .finite p,.finite q => format.round (p - q)
  | .finite _,.infinite => .negInfinite
  | .finite _,.negInfinite => .infinite
  | .infinite,.finite _ => .infinite
  | .infinite,.negInfinite => .infinite
  | .negInfinite,.finite _ => .negInfinite
  | .negInfinite,.infinite => .negInfinite
  | _,_ => .nan

def Datum.neg : Datum → Datum
  | .nan => .nan
  | .negInfinite => .infinite
  | .finite q => .finite (-q)
  | .infinite => .negInfinite

/-- The sum of two numbers of a format. -/
def Datum.add (format : Format) (a b : Datum) : Datum := a.sub format b.neg

theorem Format.round_ne_nan (format : Format) (q : ℚ) : format.round q ≠ .nan := by
  unfold round
  split
  · exact Datum.noConfusion
  · split <;> exact Datum.noConfusion

/-- A number added to a finite one gives a number. -/
theorem Datum.add_ne_nan {format : Format} {p : ℚ} {b : Datum} (number : b ≠ .nan) : Datum.add format (.finite p) b ≠ .nan := by
  cases b with
  | nan => exact absurd rfl number
  | negInfinite => exact Datum.noConfusion
  | finite q => exact format.round_ne_nan _
  | infinite => exact Datum.noConfusion

/-- Taking away a finite amount that is not negative raises no number of the format. -/
theorem Datum.sub_le {format : Format} {a b : Datum} {e : ℚ} (represents : ∀ t, a = .finite t → format.Represents t) (amount : 0 ≤ e)
    (bound : a.le b = true) : (a.sub format (.finite e)).le b = true := by
  cases a with
  | nan => cases bound
  | negInfinite => exact bound
  | infinite => exact bound
  | finite t => exact Datum.le_trans (Format.round_le (sub_le_self t amount) (represents t rfl)) bound

namespace Datum

/-- The sign of a number; that of NaN does not matter. -/
def sign : Datum → SignType
  | .nan => 0
  | .negInfinite => -1
  | .finite q => SignType.sign q
  | .infinite => 1

/-- The infinity of a sign; there is none without a sign. -/
def ofSign : SignType → Datum
  | 0 => .nan
  | -1 => .negInfinite
  | 1 => .infinite

/-- The product before it is rounded. -/
def times : Datum → Datum → Datum
  | .nan,_ => .nan
  | _,.nan => .nan
  | .finite p,.finite q => .finite (p * q)
  | a,b => ofSign (a.sign * b.sign)

/-- The product of two numbers of a format. -/
def mul (format : Format) (a b : Datum) : Datum :=
  match a.times b with
  | .finite q => format.round q
  | product => product

/-- A product and a sum that are rounded once. -/
def mul_add (format : Format) (a b c : Datum) : Datum := (a.times b).add format c

/-- The quotient of two numbers of a format. -/
def div (format : Format) : Datum → Datum → Datum
  | .nan,_ => .nan
  | _,.nan => .nan
  | .finite p,.finite q => if q = 0 then ofSign (SignType.sign p) else format.round (p / q)
  | .finite _,_ => .finite 0
  | a,.finite q => ofSign (a.sign * (if q = 0 then 1 else SignType.sign q))
  | _,_ => .nan

/-- The smaller of two numbers, or the one that is a number. -/
def min (a b : Datum) : Datum := if a = .nan then b else if b = .nan then a else if a.le b then a else b

/-- The larger of two numbers, or the one that is a number. -/
def max (a b : Datum) : Datum := if a = .nan then b else if b = .nan then a else if a.le b then b else a

end Datum
end MemoryEngine.Rounding
