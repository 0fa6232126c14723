import Mathlib.Data.Prod.Lex
import Mathlib.Data.String.Basic

/-! Instants as the store keeps them: a proleptic Gregorian date, the second of
the day and the nanosecond, which passes one billion inside a leap second.
Columns hold the RFC 3339 text of an instant, and SQL compares that text. -/

namespace MemoryEngine.Time

/-- A UTC instant. -/
structure DateTime where
  year : Int
  month : Nat
  day : Nat
  secs : Nat
  frac : Nat
  month_bound : 1 ≤ month ∧ month ≤ 12 := by decide
  day_bound : 1 ≤ day ∧ day ≤ 31 := by decide
  secs_bound : secs < 86400 := by decide
  frac_bound : frac < 2000000000 := by decide
deriving DecidableEq

namespace DateTime

/-- The chronological sort key. -/
def key (t : DateTime) : Int ×ₗ Nat ×ₗ Nat ×ₗ Nat ×ₗ Nat :=
  toLex (t.year,toLex (t.month,toLex (t.day,toLex (t.secs,t.frac))))

theorem key_injective : Function.Injective key := by
  rintro ⟨y,m,d,s,f,_,_,_,_⟩ ⟨y',m',d',s',f',_,_,_,_⟩ same
  simp only [key,EmbeddingLike.apply_eq_iff_eq,Prod.mk.injEq] at same
  obtain ⟨rfl,rfl,rfl,rfl,rfl⟩ := same
  rfl

instance : LinearOrder DateTime := LinearOrder.lift' key key_injective

def digit (n : Nat) : Char := Char.ofNat (48 + n % 10)

/-- The low `width` decimal digits of `n`, most significant first. -/
def digits : Nat → Nat → List Char
  | 0,_ => []
  | width + 1,n => digit (n / 10 ^ width) :: digits width n

/-- Four digits inside the common era and a signed year outside it. -/
def year_text (year : Int) : List Char :=
  if 0 ≤ year ∧ year ≤ 9999 then digits 4 year.toNat
  else (if year < 0 then '-' else '+') ::
    (if year.natAbs ≤ 9999 then digits 4 year.natAbs else (toString year.natAbs).toList)

/-- No fraction, or three, six or nine digits of it. -/
def frac_text (nanos : Nat) : List Char :=
  if nanos = 0 then [] else
  if nanos % 1000000 = 0 then '.' :: digits 3 (nanos / 1000000) else
  if nanos % 1000 = 0 then '.' :: digits 6 (nanos / 1000) else '.' :: digits 9 nanos

/-- A leap second reads as second sixty of its minute. -/
def clock_text (secs frac : Nat) : List Char :=
  digits 2 (secs / 3600) ++ ':' :: digits 2 (secs / 60 % 60) ++ ':' ::
    digits 2 (secs % 60 + frac / 1000000000) ++ frac_text (frac % 1000000000)

def naive_text (t : DateTime) : List Char :=
  year_text t.year ++ '-' :: digits 2 t.month ++ '-' :: digits 2 t.day ++ 'T' :: clock_text t.secs t.frac

def to_rfc3339 (t : DateTime) : String := String.ofList (t.naive_text ++ "+00:00".toList)

/-- The text a serialized instant has, with `Z` for the offset. -/
def serde_text (t : DateTime) : String := String.ofList (t.naive_text ++ ['Z'])

/-- The RFC 3339 reader accepts four-digit years only, so a stored instant reads
    back exactly when its year has four digits. -/
def Readable (t : DateTime) : Prop := 0 ≤ t.year ∧ t.year ≤ 9999

instance (t : DateTime) : Decidable t.Readable := inferInstanceAs (Decidable (_ ∧ _))

/-- SQL `<` on the stored texts. -/
def textLt (a b : DateTime) : Bool := decide (a.to_rfc3339 < b.to_rfc3339)

/-- The largest instant, which the search path passes as a cutoff. -/
def MAX_UTC : DateTime := ⟨262142,12,31,86399,999999999,by decide,by decide,by decide,by decide⟩

example : to_rfc3339 ⟨2026,6,16,3661,500000000,by decide,by decide,by decide,by decide⟩ =
    "2026-06-16T01:01:01.500+00:00" := by decide

end DateTime
end MemoryEngine.Time
