import MemoryEngine.Rounding

/-! Rounding keeps the order of the numbers that are not negative, and so do the sum
and the products of such numbers. -/

namespace MemoryEngine.Rounding

theorem le_halfEven {q : ℚ} {n : Int} (bound : n ≤ q) : n ≤ halfEven q := by
  have low : n ≤ ⌊q⌋ := Int.le_floor.mpr bound
  unfold halfEven
  simp only []
  split
  · exact low
  · split
    · exact low.trans (Int.le_add_one le_rfl)
    · split
      · exact low
      · exact low.trans (Int.le_add_one le_rfl)

theorem halfEven_mono {p q : ℚ} (order : p ≤ q) : halfEven p ≤ halfEven q := by
  rcases eq_or_lt_of_le (Int.floor_le_floor order) with same | apart
  · -- between two neighbouring integers only the distance to the lower one counts
    unfold halfEven
    simp only [same]
    split_ifs <;> first | omega | linarith
  · have above : p ≤ ((⌊p⌋ + 1 : Int) : ℚ) := by
      push_cast
      exact (Int.lt_floor_add_one p).le
    have below : ((⌊q⌋ : Int) : ℚ) ≤ q := Int.floor_le q
    exact ((halfEven_le above).trans (Int.add_one_le_of_lt apart)).trans (le_halfEven below)

namespace Format
variable {format : Format}

/-- Rounding down to a multiple of the spacing stays above it. -/
theorem le_nearest_grid {q : ℚ} {m k : Int} (fine : format.exponent q ≤ k) (bound : m * (2 : ℚ) ^ k ≤ q) :
    m * (2 : ℚ) ^ k ≤ format.nearest q := by
  have spacing : (0 : ℚ) < 2 ^ format.exponent q := zpow_pos two_pos _
  have whole : (m : ℚ) * 2 ^ k = ((m * 2 ^ (k - format.exponent q).toNat : Int) : ℚ) * 2 ^ format.exponent q := by
    have split : k = (((k - format.exponent q).toNat : Nat) : Int) + format.exponent q := by omega
    conv_lhs => rw [split,zpow_add₀ (by norm_num),zpow_natCast]
    push_cast
    ring
  rw [whole] at bound ⊢
  refine mul_le_mul_of_nonneg_right ?_ spacing.le
  exact_mod_cast le_halfEven ((le_div_iff₀ spacing).mpr bound)

theorem nearest_zero : format.nearest 0 = 0 := by simp [nearest,halfEven]

theorem nearest_nonneg {q : ℚ} (positive : 0 ≤ q) : 0 ≤ format.nearest q := by
  have grid : ((0 : Int) : ℚ) * 2 ^ format.exponent q ≤ q := by simpa using positive
  simpa using le_nearest_grid le_rfl grid

theorem nearest_mono {p q : ℚ} (positive : 0 ≤ p) (order : p ≤ q) : format.nearest p ≤ format.nearest q := by
  rcases eq_or_lt_of_le positive with rfl | above
  · rw [nearest_zero]
    exact nearest_nonneg order
  have beyond : 0 < q := lt_of_lt_of_le above order
  have logs : Int.log 2 p ≤ Int.log 2 q := Int.log_mono_right above order
  have size : |p| = p := abs_of_pos above
  have size' : |q| = q := abs_of_pos beyond
  by_cases same : format.exponent p = format.exponent q
  · unfold nearest
    rw [same]
    have spacing : (0 : ℚ) < 2 ^ format.exponent q := zpow_pos two_pos _
    refine mul_le_mul_of_nonneg_right ?_ spacing.le
    exact_mod_cast halfEven_mono (div_le_div_of_nonneg_right order spacing.le)
  · -- the power of two at the head of the larger number separates them
    have digit := format.positive
    have wider : format.exponent p < format.exponent q ∧ Int.log 2 p < Int.log 2 q ∧
        format.exponent q = Int.log 2 q + 1 - format.precision := by
      simp only [exponent,size,size'] at same ⊢
      omega
    have below : p ≤ ((1 : Int) : ℚ) * 2 ^ Int.log 2 q := by
      have head : p < 2 ^ (Int.log 2 p + 1) := by exact_mod_cast Int.lt_zpow_succ_log_self (b := 2) (by norm_num) p
      have step : (2 : ℚ) ^ (Int.log 2 p + 1) ≤ 2 ^ Int.log 2 q := zpow_le_zpow_right₀ (by norm_num) (by omega)
      push_cast
      linarith
    have pivot : ((1 : Int) : ℚ) * 2 ^ Int.log 2 q ≤ q := by
      have head := Int.zpow_log_le_self (b := 2) (by norm_num) beyond
      push_cast at head ⊢
      linarith
    refine (nearest_le_grid ?_ below).trans (le_nearest_grid ?_ pivot)
    · omega
    · omega

theorem round_mono {p q : ℚ} (positive : 0 ≤ p) (order : p ≤ q) : (format.round p).le (format.round q) = true := by
  have nearest : format.nearest p ≤ format.nearest q := nearest_mono positive order
  unfold round
  split_ifs
  · rfl
  · linarith
  · linarith
  · rfl
  · rfl
  · rfl
  · rfl
  · linarith
  · exact decide_eq_true nearest

end Format

namespace Datum

/-- A number that is not negative. -/
abbrev Nonneg (a : Datum) : Prop := (Datum.finite 0).le a = true

theorem le_or_le {a b : Datum} (number : a ≠ .nan) (number' : b ≠ .nan) : a.le b = true ∨ b.le a = true := by
  cases a with
  | nan => exact absurd rfl number
  | negInfinite => cases b <;> first | exact absurd rfl number' | exact .inl rfl
  | infinite => cases b <;> first | exact absurd rfl number' | exact .inr rfl
  | finite p =>
    cases b with
    | nan => exact absurd rfl number'
    | negInfinite => exact .inr rfl
    | infinite => exact .inl rfl
    | finite q => exact (le_total p q).imp decide_eq_true decide_eq_true

theorem le_infinite {a : Datum} (number : a ≠ .nan) : a.le .infinite = true := by
  cases a <;> first | exact absurd rfl number | rfl

theorem Nonneg.number {a : Datum} (positive : a.Nonneg) : a ≠ .nan := by
  rintro rfl
  cases positive

theorem Nonneg.trans {a b : Datum} (positive : a.Nonneg) (order : a.le b = true) : b.Nonneg := le_trans positive order

/-- A number that is not negative is finite or the infinity above. -/
theorem Nonneg.cases {a : Datum} (positive : a.Nonneg) : a = .infinite ∨ ∃ p, a = .finite p ∧ 0 ≤ p := by
  cases a with
  | nan => cases positive
  | negInfinite => cases positive
  | infinite => exact .inl rfl
  | finite p => exact .inr ⟨p,rfl,of_decide_eq_true positive⟩

/-- Below a finite number a number that is not negative is finite. -/
theorem finite_of_le {a : Datum} {q : ℚ} (lower : a.Nonneg) (upper : a.le (.finite q) = true) : ∃ p, a = .finite p ∧ 0 ≤ p ∧ p ≤ q := by
  cases a with
  | nan => cases lower
  | negInfinite => cases lower
  | infinite => cases upper
  | finite p => exact ⟨p,rfl,of_decide_eq_true lower,of_decide_eq_true upper⟩

theorem nonneg_max (a : Datum) : (a.max (.finite 0)).Nonneg := by
  unfold max
  split_ifs with none_ _ below
  · rfl
  · contradiction
  · rfl
  · exact (le_or_le none_ Datum.noConfusion).resolve_left below

variable {format : Format}

theorem nonneg_round (room : 0 < format.limit) {q : ℚ} (positive : 0 ≤ q) : (format.round q).Nonneg := by
  have zero : format.round 0 = .finite 0 := by
    rw [Format.round,Format.nearest_zero,if_neg (not_le.mpr room),if_neg (not_le.mpr (neg_neg_of_pos room))]
  have order : (format.round 0).le (format.round q) = true := Format.round_mono le_rfl positive
  rw [zero] at order
  exact order

theorem nonneg_add (room : 0 < format.limit) {a b : Datum} (first : a.Nonneg) (second : b.Nonneg) : (a.add format b).Nonneg := by
  rcases first.cases with rfl | ⟨p,rfl,above⟩ <;> rcases second.cases with rfl | ⟨q,rfl,above'⟩
  · rfl
  · rfl
  · rfl
  · refine nonneg_round room ?_
    rw [sub_neg_eq_add]
    exact add_nonneg above above'

/-- Larger numbers have the larger sum. -/
theorem add_mono (room : 0 < format.limit) {a b c d : Datum} (first : a.Nonneg) (second : b.Nonneg) (left : a.le c = true)
    (right : b.le d = true) : (a.add format b).le (c.add format d) = true := by
  have sum := nonneg_add room first second
  rcases (first.trans left).cases with rfl | ⟨r,rfl,_⟩ <;> rcases (second.trans right).cases with rfl | ⟨t,rfl,_⟩
  · exact le_infinite sum.number
  · exact le_infinite sum.number
  · exact le_infinite sum.number
  · obtain ⟨p,rfl,above,below⟩ := finite_of_le first left
    obtain ⟨q,rfl,above',below'⟩ := finite_of_le second right
    refine Format.round_mono ?_ ?_
    · rw [sub_neg_eq_add]
      exact add_nonneg above above'
    · rw [sub_neg_eq_add,sub_neg_eq_add]
      exact add_le_add below below'

/-- A quotient by a positive number keeps its sign. -/
theorem nonneg_div (room : 0 < format.limit) {a : Datum} {q : ℚ} (positive : a.Nonneg) (divisor : 0 < q) :
    (a.div format (.finite q)).Nonneg := by
  rcases positive.cases with rfl | ⟨p,rfl,above⟩
  · have quotient : infinite.div format (.finite q) = .infinite := by simp [div,sign,divisor.ne',sign_pos divisor,ofSign]
    rw [quotient]
    exact positive
  · rw [div,if_neg divisor.ne']
    exact nonneg_round room (div_nonneg above divisor.le)

theorem div_nonpos (room : 0 < format.limit) {a : Datum} {q : ℚ} (negative : a.le (.finite 0) = true) (divisor : 0 < q) :
    (a.div format (.finite q)).le (.finite 0) = true := by
  have zero : format.Represents 0 := ⟨room,0,format.least,by simp,le_refl _,by simp⟩
  cases a with
  | nan => cases negative
  | infinite => cases negative
  | negInfinite => simp [div,sign,divisor.ne',sign_pos divisor,ofSign,le]
  | finite p =>
    rw [div,if_neg divisor.ne']
    exact Format.round_le (div_nonpos_of_nonpos_of_nonneg (of_decide_eq_true negative) divisor.le) zero

theorem Nonneg.neg {a : Datum} (positive : a.Nonneg) : a.neg.le (.finite 0) = true := by
  rcases positive.cases with rfl | ⟨p,rfl,above⟩
  · rfl
  · exact decide_eq_true (neg_nonpos.mpr above)

theorem Nonneg.min {a : Datum} {q : ℚ} (positive : a.Nonneg) (bound : 0 ≤ q) : ∃ p, a.min (.finite q) = .finite p ∧ 0 ≤ p ∧ p ≤ q := by
  unfold Datum.min
  rw [if_neg positive.number,if_neg Datum.noConfusion]
  split
  · rename_i below
    exact finite_of_le positive below
  · exact ⟨q,rfl,bound,le_rfl⟩

section weighted
variable {v w s u : ℚ}

/-- The weighted sum of two signals, each at most one. -/
theorem weighted_range (room : 0 < format.limit) (first : 0 ≤ w) (second : 0 ≤ v) (signal : 0 ≤ s ∧ s ≤ 1) (other : 0 ≤ u ∧ u ≤ 1) :
    ((finite w).mul_add format (.finite s) ((finite v).mul format (.finite u))).Nonneg ∧
      ((finite w).mul_add format (.finite s) ((finite v).mul format (.finite u))).le
        ((finite w).mul_add format (.finite 1) ((finite v).mul format (.finite 1))) = true := by
  have left : (finite (w * s)).Nonneg := decide_eq_true (mul_nonneg first signal.1)
  have right : ((finite v).mul format (.finite u)).Nonneg := nonneg_round room (mul_nonneg second other.1)
  refine ⟨nonneg_add room left right,add_mono room left right ?_ ?_⟩
  · exact decide_eq_true (mul_le_mul_of_nonneg_left signal.2 first)
  · exact Format.round_mono (mul_nonneg second other.1) (mul_le_mul_of_nonneg_left other.2 second)

end weighted
end Datum
end MemoryEngine.Rounding
