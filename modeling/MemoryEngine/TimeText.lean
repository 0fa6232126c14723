import MemoryEngine.Time
import Mathlib.Tactic.Ring

/-! The order of the stored texts of instants. Fields of a fixed width compare like
the numbers they spell, a shorter fraction sorts like one padded with zeros, and a
sign in front of the year sorts before every digit. -/

namespace MemoryEngine.Time
open DateTime

section lexicographic
variable {α : Type} [LT α]

/-- Texts compare by a field of equal length first. -/
theorem append_lt_append_iff {p q x y : List α} (width : p.length = q.length) : p ++ x < q ++ y ↔ p < q ∨ p = q ∧ x < y := by
  induction p generalizing q with
  | nil =>
    obtain rfl : q = [] := List.length_eq_zero_iff.mp width.symm
    simp
  | cons c rest ih =>
    cases q with
    | nil => cases width
    | cons d rest' =>
      rw [List.cons_append,List.cons_append,List.cons_lt_cons_iff,List.cons_lt_cons_iff,ih (Nat.succ.inj width),List.cons.injEq]
      tauto

end lexicographic

theorem digit_lt_iff (a b : Nat) : digit a < digit b ↔ a % 10 < b % 10 := by
  have all : ∀ i j : Fin 10, Char.ofNat (48 + i) < Char.ofNat (48 + j) ↔ i < j := by decide
  exact all ⟨a % 10,Nat.mod_lt _ (by norm_num)⟩ ⟨b % 10,Nat.mod_lt _ (by norm_num)⟩

theorem digit_eq_iff (a b : Nat) : digit a = digit b ↔ a % 10 = b % 10 := by
  have all : ∀ i j : Fin 10, Char.ofNat (48 + i) = Char.ofNat (48 + j) ↔ (i : Nat) = j := by decide
  exact all ⟨a % 10,Nat.mod_lt _ (by norm_num)⟩ ⟨b % 10,Nat.mod_lt _ (by norm_num)⟩

/-- Both signs sort before every digit, and plus before minus. -/
theorem plus_lt_digit (n : Nat) : '+' < digit n := by
  have all : ∀ i : Fin 10, '+' < Char.ofNat (48 + i) := by decide
  exact all ⟨n % 10,Nat.mod_lt _ (by norm_num)⟩

theorem minus_lt_digit (n : Nat) : '-' < digit n := by
  have all : ∀ i : Fin 10, '-' < Char.ofNat (48 + i) := by decide
  exact all ⟨n % 10,Nat.mod_lt _ (by norm_num)⟩

/-- Positional notation compares by the leading digit first. -/
theorem leading_lt_iff {base a b r s : Nat} (low : r < base) (low' : s < base) :
    r + base * a < s + base * b ↔ a < b ∨ a = b ∧ r < s := by
  rcases lt_trichotomy a b with less | rfl | more
  · have step : base * a + base ≤ base * b := by
      rw [← Nat.mul_succ]
      exact Nat.mul_le_mul_left base less
    exact iff_of_true (by omega) (.inl less)
  · simp
  · have step : base * b + base ≤ base * a := by
      rw [← Nat.mul_succ]
      exact Nat.mul_le_mul_left base more
    exact iff_of_false (by omega) (by omega)

theorem leading_eq_iff {base a b r s : Nat} (low : r < base) (low' : s < base) :
    r + base * a = s + base * b ↔ a = b ∧ r = s := by
  have left := leading_lt_iff (a := a) (b := b) low low'
  have right := leading_lt_iff (a := b) (b := a) low' low
  omega

/-- A field of fixed width compares like the number it spells. -/
theorem digits_lt_iff {width n m : Nat} {x y : List Char} : digits width n ++ x < digits width m ++ y ↔
    n % 10 ^ width < m % 10 ^ width ∨ n % 10 ^ width = m % 10 ^ width ∧ x < y := by
  induction width with
  | zero => simp [digits,Nat.mod_one]
  | succ width ih =>
    have low := Nat.mod_lt n (Nat.pow_pos (n := width) (by norm_num : 0 < 10))
    have low' := Nat.mod_lt m (Nat.pow_pos (n := width) (by norm_num : 0 < 10))
    rw [digits,digits,List.cons_append,List.cons_append,List.cons_lt_cons_iff,ih,digit_lt_iff,digit_eq_iff,Nat.mod_pow_succ,
      Nat.mod_pow_succ,leading_lt_iff low low',leading_eq_iff low low']
    tauto

theorem digits_field_lt_iff {width n m : Nat} {x y : List Char} (fits : n < 10 ^ width) (fits' : m < 10 ^ width) :
    digits width n ++ x < digits width m ++ y ↔ n < m ∨ n = m ∧ x < y := by
  rw [digits_lt_iff,Nat.mod_eq_of_lt fits,Nat.mod_eq_of_lt fits']

/-- A field splits into a shorter one and the digits it leaves out. -/
theorem digits_add (width rest n : Nat) : digits (width + rest) n = digits width (n / 10 ^ rest) ++ digits rest n := by
  induction width with
  | zero => simp [digits]
  | succ width ih =>
    rw [Nat.succ_add,digits,ih,digits,List.cons_append,Nat.div_div_eq_div_mul,← Nat.pow_add,Nat.add_comm rest width]

/-- Where one fraction ends, the offset sorts before any further digit of the other. -/
theorem plus_lt_digits (width n : Nat) (x y : List Char) : '+' :: x < digits (width + 1) n ++ y := by
  rw [digits,List.cons_append,List.cons_lt_cons_iff]
  exact .inl (plus_lt_digit _)

theorem not_digits_lt_plus (width n : Nat) (x y : List Char) : ¬ digits (width + 1) n ++ x < '+' :: y := by
  rw [digits,List.cons_append,List.cons_lt_cons_iff]
  rintro (less | ⟨same,_⟩)
  · exact absurd less (lt_asymm (plus_lt_digit _))
  · exact absurd same (ne_of_gt (plus_lt_digit _))

/-- A shorter field before the offset against a longer one. -/
theorem short_lt_long_iff (width rest : Nat) {n m : Nat} {x y : List Char} (fits : n < 10 ^ width) (fits' : m < 10 ^ (width + (rest + 1))) :
    digits width n ++ '+' :: x < digits (width + (rest + 1)) m ++ y ↔ n ≤ m / 10 ^ (rest + 1) := by
  have small : m / 10 ^ (rest + 1) < 10 ^ width := by
    rw [Nat.div_lt_iff_lt_mul (Nat.pow_pos (by norm_num)),← Nat.pow_add]
    exact fits'
  rw [digits_add,List.append_assoc,digits_field_lt_iff fits small,and_iff_left (plus_lt_digits rest m x y)]
  exact le_iff_lt_or_eq.symm

theorem long_lt_short_iff (width rest : Nat) {n m : Nat} {x y : List Char} (fits : n < 10 ^ (width + (rest + 1))) (fits' : m < 10 ^ width) :
    digits (width + (rest + 1)) n ++ x < digits width m ++ '+' :: y ↔ n / 10 ^ (rest + 1) < m := by
  have small : n / 10 ^ (rest + 1) < 10 ^ width := by
    rw [Nat.div_lt_iff_lt_mul (Nat.pow_pos (by norm_num)),← Nat.pow_add]
    exact fits
  rw [digits_add,List.append_assoc,digits_field_lt_iff small fits']
  simp only [not_digits_lt_plus,and_false,or_false]

/-- Fields of the same width before the same rest. -/
theorem equal_length_lt_iff (width rest : Nat) {n m : Nat} {x : List Char} (fits : n < 10 ^ (width + rest)) (fits' : m < 10 ^ (width + rest))
    (whole : n % 10 ^ rest = 0) (whole' : m % 10 ^ rest = 0) :
    digits width (n / 10 ^ rest) ++ x < digits width (m / 10 ^ rest) ++ x ↔ n < m := by
  have base : 0 < 10 ^ rest := Nat.pow_pos (by norm_num)
  rw [Nat.pow_add] at fits fits'
  rw [digits_field_lt_iff ((Nat.div_lt_iff_lt_mul base).mpr fits) ((Nat.div_lt_iff_lt_mul base).mpr fits')]
  simp only [List.lt_irrefl,and_false,or_false]
  have split := Nat.div_add_mod n (10 ^ rest)
  have split' := Nat.div_add_mod m (10 ^ rest)
  rw [whole,Nat.add_zero] at split
  rw [whole',Nat.add_zero] at split'
  conv_rhs => rw [← split,← split']
  exact (Nat.mul_lt_mul_left base).symm

/-- The forms of a fraction: none, or the digits up to the last group that is not zero. -/
theorem frac_text_cases (n : Nat) :
    (n = 0 ∧ frac_text n = []) ∨ ∃ k, (k = 3 ∨ k = 6 ∨ k = 9) ∧ 0 < n ∧ frac_text n = '.' :: digits k (n / 10 ^ (9 - k)) ∧
      n % 10 ^ (9 - k) = 0 ∧ (3 < k → n % 10 ^ (12 - k) ≠ 0) := by
  unfold frac_text
  by_cases zero : n = 0
  · exact .inl ⟨zero,if_pos zero⟩
  · rw [if_neg zero]
    by_cases milli : n % 1000000 = 0
    · exact .inr ⟨3,.inl rfl,Nat.pos_of_ne_zero zero,if_pos milli,milli,by simp⟩
    · rw [if_neg milli]
      by_cases micro : n % 1000 = 0
      · exact .inr ⟨6,.inr (.inl rfl),Nat.pos_of_ne_zero zero,if_pos micro,micro,fun _ => milli⟩
      · refine .inr ⟨9,.inr (.inr rfl),Nat.pos_of_ne_zero zero,?_,by simp [Nat.mod_one],fun _ => micro⟩
        rw [if_neg micro]
        simp

/-- Fractions before an offset compare like the nanoseconds they spell. -/
theorem frac_text_lt_iff {n m : Nat} (fits : n < 1000000000) (fits' : m < 1000000000) (z : List Char) :
    frac_text n ++ '+' :: z < frac_text m ++ '+' :: z ↔ n < m := by
  rcases frac_text_cases n with ⟨rfl,none_⟩ | ⟨k,width,some_,text,whole,least⟩
  · rcases frac_text_cases m with ⟨rfl,none'⟩ | ⟨k',_,some',text',_⟩
    · rw [none_]
      exact iff_of_false (List.lt_irrefl _) (lt_irrefl 0)
    · rw [none_,text',List.nil_append,List.cons_append,List.cons_lt_cons_iff]
      exact iff_of_true (.inl (by decide)) some'
  · rcases frac_text_cases m with ⟨rfl,none'⟩ | ⟨k',width',some',text',whole',least'⟩
    · rw [text,none',List.nil_append,List.cons_append,List.cons_lt_cons_iff]
      exact iff_of_false (by simp [show ¬ '.' < '+' by decide]) (Nat.not_lt_zero n)
    · rw [text,text',List.cons_append,List.cons_append,List.cons_lt_cons_iff]
      simp only [lt_self_iff_false,true_and,false_or]
      rcases width with rfl | rfl | rfl
      · rcases width' with rfl | rfl | rfl
        · exact equal_length_lt_iff 3 6 fits fits' whole whole'
        · refine (short_lt_long_iff 3 2 (by omega) (by omega)).trans ?_
          omega
        · refine (short_lt_long_iff 3 5 (by omega) (by omega)).trans ?_
          omega
      · rcases width' with rfl | rfl | rfl
        · refine (long_lt_short_iff 3 2 (by omega) (by omega)).trans ?_
          omega
        · exact equal_length_lt_iff 6 3 fits fits' whole whole'
        · refine (short_lt_long_iff 6 2 (by omega) (by omega)).trans ?_
          omega
      · rcases width' with rfl | rfl | rfl
        · refine (long_lt_short_iff 3 5 (by omega) (by omega)).trans ?_
          omega
        · refine (long_lt_short_iff 6 2 (by omega) (by omega)).trans ?_
          omega
        · exact equal_length_lt_iff 9 0 fits fits' whole whole'

/-- The text of an instant after its year. -/
def rest_text (t : DateTime) : List Char :=
  '-' :: (digits 2 t.month ++ '-' :: (digits 2 t.day ++ 'T' :: (digits 2 (t.secs / 3600) ++ ':' :: (digits 2 (t.secs / 60 % 60) ++
    ':' :: (digits 2 (t.secs % 60 + t.frac / 1000000000) ++ (frac_text (t.frac % 1000000000) ++ '+' :: "00:00".toList))))))

theorem to_rfc3339_eq (t : DateTime) : t.to_rfc3339 = String.ofList (year_text t.year ++ rest_text t) := by
  simp only [to_rfc3339,naive_text,clock_text,rest_text,List.append_assoc,List.cons_append]
  rfl

theorem textLt_iff (a b : DateTime) :
    a.textLt b = true ↔ year_text a.year ++ rest_text a < year_text b.year ++ rest_text b := by
  rw [textLt,decide_eq_true_eq,to_rfc3339_eq,to_rfc3339_eq,String.lt_iff_toList_lt,String.toList_ofList,String.toList_ofList]

/-- A leap second is the sixtieth second of its minute. -/
def Leaps (t : DateTime) : Prop := 1000000000 ≤ t.frac → t.secs % 60 = 59

/-- The order of two instants inside one year. -/
def BeforeInYear (a b : DateTime) : Prop :=
  a.month < b.month ∨ a.month = b.month ∧ (a.day < b.day ∨ a.day = b.day ∧ (a.secs < b.secs ∨ a.secs = b.secs ∧ a.frac < b.frac))

theorem lt_iff (a b : DateTime) : a < b ↔ a.year < b.year ∨ a.year = b.year ∧ BeforeInYear a b := by
  change a.key < b.key ↔ _
  simp only [key,Prod.Lex.lt_iff,ofLex_toLex,BeforeInYear]

/-- The clock compares like the seconds and nanoseconds it spells. -/
theorem clock_lt_iff {secs frac secs' frac' : Nat} (bound : frac < 2000000000) (bound' : frac' < 2000000000)
    (leap : 1000000000 ≤ frac → secs % 60 = 59) (leap' : 1000000000 ≤ frac' → secs' % 60 = 59) :
    (secs / 3600 < secs' / 3600 ∨ secs / 3600 = secs' / 3600 ∧ (secs / 60 % 60 < secs' / 60 % 60 ∨ secs / 60 % 60 = secs' / 60 % 60 ∧
      (secs % 60 + frac / 1000000000 < secs' % 60 + frac' / 1000000000 ∨
        secs % 60 + frac / 1000000000 = secs' % 60 + frac' / 1000000000 ∧ frac % 1000000000 < frac' % 1000000000))) ↔
      secs < secs' ∨ secs = secs' ∧ frac < frac' := by
  have minutes : secs / 3600 = secs / 60 / 60 := by omega
  have minutes' : secs' / 3600 = secs' / 60 / 60 := by omega
  by_cases same : secs / 60 = secs' / 60
  · rw [minutes,minutes',same]
    simp only [lt_self_iff_false,true_and,false_or]
    omega
  · omega

theorem rest_text_lt_iff {a b : DateTime} (leaps : Leaps a) (leaps' : Leaps b) : rest_text a < rest_text b ↔ BeforeInYear a b := by
  have times := clock_lt_iff a.frac_bound b.frac_bound leaps leaps'
  have months := And.intro a.month_bound b.month_bound
  have days := And.intro a.day_bound b.day_bound
  have clocks := And.intro a.secs_bound b.secs_bound
  have fractions := And.intro a.frac_bound b.frac_bound
  unfold rest_text BeforeInYear
  -- month, day, hour, minute, second and fraction, each behind its separator
  rw [List.cons_lt_cons_iff,digits_field_lt_iff (by omega) (by omega),List.cons_lt_cons_iff,digits_field_lt_iff (by omega) (by omega),
    List.cons_lt_cons_iff,digits_field_lt_iff (by omega) (by omega),List.cons_lt_cons_iff,digits_field_lt_iff (by omega) (by omega),
    List.cons_lt_cons_iff,digits_field_lt_iff (by omega) (by omega),frac_text_lt_iff (by omega) (by omega)]
  simp only [lt_self_iff_false,true_and,false_or]
  rw [times]

/-- A signed year sorts before every year of four digits. -/
theorem sign_lt_digits {sign : Char} (before : ∀ n, sign < digit n) (width n : Nat) (x y : List Char) :
    sign :: x < digits (width + 1) n ++ y := by
  rw [digits,List.cons_append,List.cons_lt_cons_iff]
  exact .inl (before _)

theorem year_text_of_four {year : Int} (low : 0 ≤ year) (high : year ≤ 9999) : year_text year = digits 4 year.toNat :=
  if_pos ⟨low,high⟩

theorem year_text_before : year_text (-1) = '-' :: digits 4 1 := by decide

theorem year_text_after : year_text 10000 = '+' :: "10000".toList := by decide

/-- Up to the year 9999 texts compare like instants. -/
theorem year_text_lt_iff {y y' : Int} {x x' : List Char} (low : -1 ≤ y) (high : y ≤ 9999) (low' : -1 ≤ y') (high' : y' ≤ 9999) :
    year_text y ++ x < year_text y' ++ x' ↔ y < y' ∨ y = y' ∧ x < x' := by
  by_cases four : 0 ≤ y
  · by_cases four' : 0 ≤ y'
    · rw [year_text_of_four four high,year_text_of_four four' high',digits_field_lt_iff (by omega) (by omega)]
      refine or_congr (by omega) (and_congr_left fun _ => by omega)
    · obtain rfl : y' = -1 := by omega
      rw [year_text_of_four four high,year_text_before]
      have after := sign_lt_digits minus_lt_digit 3 y.toNat (digits 4 1 ++ x') x
      exact iff_of_false (List.lt_asymm after) (by omega)
  · obtain rfl : y = -1 := by omega
    by_cases four' : 0 ≤ y'
    · rw [year_text_before,year_text_of_four four' high']
      exact iff_of_true (sign_lt_digits minus_lt_digit 3 y'.toNat (digits 4 1 ++ x) x') (.inl (by omega))
    · obtain rfl : y' = -1 := by omega
      rw [append_lt_append_iff rfl]
      simp

/-- The year 10000 sorts before every earlier one. -/
theorem year_text_after_lt {y : Int} {x x' : List Char} (low : -1 ≤ y) (high : y ≤ 9999) : year_text 10000 ++ x < year_text y ++ x' := by
  rw [year_text_after]
  by_cases four : 0 ≤ y
  · rw [year_text_of_four four high]
    exact sign_lt_digits plus_lt_digit 3 y.toNat ("10000".toList ++ x) x'
  · obtain rfl : y = -1 := by omega
    rw [year_text_before,List.cons_append,List.cons_append,List.cons_lt_cons_iff]
    exact .inl (by decide)

/-- An instant as the reader hands it out: an offset moves its year by at most one
    beyond four digits. -/
structure Parsed (t : DateTime) : Prop where
  low : -1 ≤ t.year
  high : t.year ≤ 10000
  leaps : Leaps t

/-- Two texts compare like the instants they spell. -/
def SameOrder (a b : DateTime) : Prop := (a.textLt b = true ↔ a < b) ∧ (b.textLt a = true ↔ b < a)

instance (a b : DateTime) : Decidable (SameOrder a b) := inferInstanceAs (Decidable (_ ∧ _))

theorem textLt_iff_lt {a b : DateTime} (parsed : Parsed a) (parsed' : Parsed b) (same : 9999 < a.year ↔ 9999 < b.year) :
    a.textLt b = true ↔ a < b := by
  rw [textLt_iff,lt_iff]
  by_cases late : 9999 < a.year
  · have year : a.year = 10000 := le_antisymm parsed.high late
    have year' : b.year = 10000 := le_antisymm parsed'.high (same.mp late)
    rw [year,year',append_lt_append_iff rfl,rest_text_lt_iff parsed.leaps parsed'.leaps]
    simp
  · have early : b.year ≤ 9999 := not_lt.mp fun late' => late (same.mpr late')
    rw [year_text_lt_iff parsed.low (not_lt.mp late) parsed'.low early,rest_text_lt_iff parsed.leaps parsed'.leaps]

theorem not_sameOrder {a b : DateTime} (parsed : Parsed a) (early : a.year ≤ 9999) (late : 9999 < b.year) (parsed' : Parsed b) :
    ¬ SameOrder a b := by
  rintro ⟨forward,_⟩
  have year : b.year = 10000 := le_antisymm parsed'.high late
  have before : a < b := (lt_iff a b).mpr (.inl (by omega))
  have text := (textLt_iff a b).mp (forward.mpr before)
  rw [year] at text
  exact List.lt_asymm text (year_text_after_lt parsed.low early)

theorem sameOrder_iff {a b : DateTime} (parsed : Parsed a) (parsed' : Parsed b) : SameOrder a b ↔ (9999 < a.year ↔ 9999 < b.year) := by
  constructor
  · intro order
    by_cases late : 9999 < a.year
    · by_cases late' : 9999 < b.year
      · exact iff_of_true late late'
      · exact absurd ⟨order.2,order.1⟩ (not_sameOrder parsed' (not_lt.mp late') late parsed)
    · by_cases late' : 9999 < b.year
      · exact absurd order (not_sameOrder parsed (not_lt.mp late) late' parsed')
      · exact iff_of_false late late'
  · intro same
    exact ⟨textLt_iff_lt parsed parsed' same,textLt_iff_lt parsed' parsed same.symm⟩

/-- A calendar date. -/
structure Date where
  year : Int
  month : Nat
  day : Nat
  month_bound : 1 ≤ month ∧ month ≤ 12
  day_bound : 1 ≤ day ∧ day ≤ 31

def days_in_month (year : Int) (month : Nat) : Nat :=
  if month = 2 then (if year % 4 = 0 ∧ (year % 100 ≠ 0 ∨ year % 400 = 0) then 29 else 28)
  else if month = 4 ∨ month = 6 ∨ month = 9 ∨ month = 11 then 30 else 31

theorem days_in_month_bound (year : Int) (month : Nat) : 1 ≤ days_in_month year month ∧ days_in_month year month ≤ 31 := by
  unfold days_in_month
  split
  · split <;> omega
  · split <;> omega

def Date.succ (date : Date) : Date :=
  if room : date.day < days_in_month date.year date.month then
    ⟨date.year,date.month,date.day + 1,date.month_bound,by have bound := days_in_month_bound date.year date.month; omega⟩
  else if inside : date.month < 12 then ⟨date.year,date.month + 1,1,by omega,by omega⟩
  else ⟨date.year + 1,1,1,by omega,by omega⟩

def Date.pred (date : Date) : Date :=
  if room : 1 < date.day then ⟨date.year,date.month,date.day - 1,date.month_bound,by have bound := date.day_bound; omega⟩
  else if inside : 1 < date.month then
    ⟨date.year,date.month - 1,days_in_month date.year (date.month - 1),by have bound := date.month_bound; omega,days_in_month_bound _ _⟩
  else ⟨date.year - 1,12,31,by omega,by omega⟩

theorem Date.succ_year (date : Date) : date.year ≤ date.succ.year ∧ date.succ.year ≤ date.year + 1 := by
  unfold succ
  split
  · exact ⟨le_refl _,by simp⟩
  · split <;> simp

theorem Date.pred_year (date : Date) : date.year - 1 ≤ date.pred.year ∧ date.pred.year ≤ date.year := by
  unfold pred
  split
  · exact ⟨by simp,le_refl _⟩
  · split <;> simp

/-- The fields of an RFC 3339 text the reader accepts, the offset in minutes. -/
structure Rfc3339 where
  year : Nat
  month : Nat
  day : Nat
  hour : Nat
  minute : Nat
  second : Nat
  nanos : Nat
  offset : Int
  year_bound : year ≤ 9999 := by decide
  month_bound : 1 ≤ month ∧ month ≤ 12 := by decide
  day_bound : 1 ≤ day ∧ day ≤ days_in_month year month := by decide
  hour_bound : hour < 24 := by decide
  minute_bound : minute < 60 := by decide
  second_bound : second ≤ 60 := by decide
  nanos_bound : nanos < 1000000000 := by decide
  offset_bound : -1440 < offset ∧ offset < 1440 := by decide

namespace Rfc3339
variable (text : Rfc3339)

def date : Date := ⟨text.year,text.month,text.day,text.month_bound,
  text.day_bound.1,text.day_bound.2.trans (days_in_month_bound _ _).2⟩

/-- The second of the day in UTC, before days are carried; second sixty counts as
    the last second of its minute. -/
def shifted : Int := (text.hour * 3600 + text.minute * 60 + min text.second 59 : Nat) - text.offset * 60

def utc_date : Date :=
  if text.shifted < 0 then text.date.pred else if 86400 ≤ text.shifted then text.date.succ else text.date

def to_utc : DateTime where
  year := text.utc_date.year
  month := text.utc_date.month
  day := text.utc_date.day
  secs := (text.shifted % 86400).toNat
  frac := if text.second = 60 then text.nanos + 1000000000 else text.nanos
  month_bound := text.utc_date.month_bound
  day_bound := text.utc_date.day_bound
  secs_bound := by omega
  frac_bound := by
    have bound := text.nanos_bound
    split <;> omega

theorem to_utc_parsed : Parsed text.to_utc := by
  have bound := text.year_bound
  have earlier := text.date.pred_year
  have later := text.date.succ_year
  have local_ : text.date.year = text.year := rfl
  have years : -1 ≤ text.utc_date.year ∧ text.utc_date.year ≤ 10000 := by
    unfold utc_date
    split
    · omega
    · split <;> omega
  refine ⟨years.1,years.2,fun leap => ?_⟩
  have sixty : text.second = 60 := by
    by_contra other
    have small : text.to_utc.frac = text.nanos := if_neg other
    have bound := text.nanos_bound
    omega
  change (text.shifted % 86400).toNat % 60 = 59
  unfold shifted
  omega

end Rfc3339

/-- The texts of two parsed instants compare like the instants if and only if both
    or neither of their years go beyond 9999. -/
theorem rfc3339_text_order_iff (a b : Rfc3339) : SameOrder a.to_utc b.to_utc ↔ (9999 < a.to_utc.year ↔ 9999 < b.to_utc.year) :=
  sameOrder_iff a.to_utc_parsed b.to_utc_parsed

/-- One hour after the last minute of the year 9999 sorts before it. -/
theorem year_beyond_9999_sorts_first : ¬ ∀ a b : Rfc3339, SameOrder a.to_utc b.to_utc := by
  intro claim
  have order := claim { year := 9999, month := 12, day := 31, hour := 23, minute := 59, second := 59, nanos := 0, offset := 0 }
    { year := 9999, month := 12, day := 31, hour := 23, minute := 59, second := 59, nanos := 0, offset := -60 }
  revert order
  decide +kernel

end MemoryEngine.Time
