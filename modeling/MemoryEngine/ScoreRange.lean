import MemoryEngine.Importance
import MemoryEngine.RoundingOrder

/-! The range of a score. Each of its four signals is between zero and one, so a score
is at most what the weights come to when every signal is one. -/

namespace MemoryEngine
open Time Rounding

namespace F64

/-- A double is NaN, an infinity or a rational. -/
theorem shapes (x : F64) : x = .nan ∨ x = .num ⊥ ∨ x = .num ((⊤ : WithTop ℚ) : SqlReal) ∨ ∃ q, x = ofRat q := by
  cases x with
  | nan => exact .inl rfl
  | num x =>
    induction x using WithBot.recBotCoe with
    | bot => exact .inr (.inl rfl)
    | coe x =>
      induction x using WithTop.recTopCoe with
      | top => exact .inr (.inr (.inl rfl))
      | coe q => exact .inr (.inr (.inr ⟨q,rfl⟩))

theorem finite_iff {x : F64} : x.is_finite = true ↔ ∃ q, x = ofRat q := by
  rcases x.shapes with rfl | rfl | rfl | ⟨q,rfl⟩
  · simp [is_finite,ofRat]
  · simp [is_finite,ofRat]
  · simp [is_finite,ofRat]
  · simp [is_finite,ofRat]

theorem le_datum (a b : F64) : a.le b = a.datum.le b.datum := by
  rcases a.shapes with rfl | rfl | rfl | ⟨p,rfl⟩ <;> rcases b.shapes with rfl | rfl | rfl | ⟨q,rfl⟩ <;>
    first | rfl | simp [le,datum,Datum.le,ofRat]

theorem le_ofRat {p q : ℚ} : (ofRat p).le (ofRat q) = true ↔ p ≤ q := by simp [le,ofRat]

theorem lt_ofRat {p q : ℚ} : (ofRat p).lt (ofRat q) = true ↔ p < q := by simp [lt,ofRat]

/-- Between zero and one. -/
def InUnit (x : F64) : Prop := (ofRat 0).le x = true ∧ x.le (ofRat 1) = true

theorem inUnit_iff {x : F64} : x.InUnit ↔ ∃ q, x = ofRat q ∧ 0 ≤ q ∧ q ≤ 1 := by
  constructor
  · rintro ⟨lower,upper⟩
    rw [le_datum] at lower upper
    obtain ⟨q,same,above,below⟩ := Datum.finite_of_le lower upper
    refine ⟨q,?_,above,below⟩
    rcases x.shapes with rfl | rfl | rfl | ⟨p,rfl⟩ <;> cases same
    rfl
  · rintro ⟨q,rfl,above,below⟩
    exact ⟨le_ofRat.mpr above,le_ofRat.mpr below⟩

theorem inUnit_num {x : SqlReal} : (num x).InUnit ↔ ((0 : ℚ) : WithTop ℚ) ≤ x ∧ x ≤ ((1 : ℚ) : WithTop ℚ) := by
  simp [InUnit,le,ofRat]

theorem InUnit.is_finite {x : F64} (unit : x.InUnit) : x.is_finite = true := by
  obtain ⟨q,same,_⟩ := inUnit_iff.mp unit
  exact finite_iff.mpr ⟨q,same⟩

end F64

/-- What the functions promise where a score calls them: a power of two to a negative
    exponent is between zero and one, and a logarithm keeps the sign it has to. -/
structure Libm.Sound (libm : Libm) : Prop where
  exp2 : ∀ x : F64, x.le (F64.ofRat 0) = true → (libm.exp2 x).InUnit
  ln : ∀ x : F64, x.is_finite = true → (F64.ofRat 1).lt x = true → (libm.ln x).is_finite = true ∧ (F64.ofRat 0).lt (libm.ln x) = true
  ln_1p : ∀ x : F64, (F64.ofRat 0).le x = true → (F64.ofRat 0).le (libm.ln_1p x) = true

/-- What the weights come to when every signal is one. -/
def ForgetPolicy.total (policy : ForgetPolicy) : F64 :=
  (policy.recency_weight.mul_add (F64.ofRat 1) (policy.frequency_weight.mul (F64.ofRat 1))).add
    (policy.graph_degree_weight.mul_add (F64.ofRat 1) (policy.base_importance_weight.mul (F64.ofRat 1)))

namespace Forget
variable {libm : Libm} {policy : ForgetPolicy}

theorem room64 : 0 < binary64.limit := by norm_num [binary64]

theorem positive_iff {x : F64} : ForgetPolicy.positive x = true ↔ ∃ q, x = F64.ofRat q ∧ 0 < q := by
  rw [ForgetPolicy.positive,Bool.and_eq_true,F64.finite_iff]
  constructor
  · rintro ⟨⟨q,rfl⟩,above⟩
    exact ⟨q,rfl,F64.lt_ofRat.mp above⟩
  · rintro ⟨q,rfl,above⟩
    exact ⟨⟨q,rfl⟩,F64.lt_ofRat.mpr above⟩

theorem weight_of_ok {x : F64} (ok : ForgetPolicy.weight_ok x = true) : ∃ q, x = F64.ofRat q ∧ 0 ≤ q := by
  rw [ForgetPolicy.weight_ok,Bool.and_eq_true,F64.finite_iff,Bool.not_eq_true'] at ok
  obtain ⟨⟨q,rfl⟩,above⟩ := ok
  refine ⟨q,rfl,not_lt.mp fun below => ?_⟩
  rw [F64.lt_ofRat.mpr below] at above
  cases above

/-- What a valid policy guarantees. -/
structure Valid (policy : ForgetPolicy) : Prop where
  half_life : ForgetPolicy.positive policy.half_life_days = true
  overrides : ∀ entry ∈ policy.half_life_overrides, ForgetPolicy.positive entry.2 = true
  recency : ForgetPolicy.weight_ok policy.recency_weight = true
  frequency : ForgetPolicy.weight_ok policy.frequency_weight = true
  graph_degree : ForgetPolicy.weight_ok policy.graph_degree_weight = true
  base_importance : ForgetPolicy.weight_ok policy.base_importance_weight = true

theorem valid_of_validate (valid : policy.validate = .ok ()) : Valid policy := by
  unfold ForgetPolicy.validate at valid
  split at valid
  · cases valid
  rename_i half_life
  split at valid
  · cases valid
  rename_i found
  split at valid
  · cases valid
  split at valid
  · cases valid
  rename_i weights
  simp only [Bool.not_eq_true',Bool.not_eq_false,Bool.and_eq_true] at half_life weights
  obtain ⟨⟨⟨recency,frequency⟩,graph_degree⟩,base_importance⟩ := weights
  refine ⟨half_life,fun entry listed => ?_,recency,frequency,graph_degree,base_importance⟩
  simpa using List.find?_eq_none.mp found entry listed

theorem nonneg_ofInt {count : Int} (counted : 0 ≤ count) : (F64.ofInt count).datum.Nonneg := by
  rw [F64.ofInt,F64.datum_ofDatum]
  exact Datum.nonneg_round room64 (by exact_mod_cast counted)

/-- A count is no number at which the logarithm breaks down. -/
theorem above_minus_one {count : Int} (counted : 0 ≤ count) : (F64.ofRat (-1)).lt (F64.ofInt count) = true := by
  have positive := nonneg_ofInt counted
  rw [F64.ofInt,F64.datum_ofDatum] at positive
  rw [F64.ofInt]
  rcases positive.cases with top | ⟨q,same,above⟩
  · rw [top]
    have least : ((-1 : ℚ) : WithTop ℚ) < ⊤ := WithTop.coe_lt_top _
    exact decide_eq_true (WithBot.coe_lt_coe.mpr least)
  · rw [same]
    exact F64.lt_ofRat.mpr (by linarith)

theorem inUnit_normalized (sound : libm.Sound) {count : Int} (counted : 0 ≤ count) {ceiling : ℚ} (above : 1 < ceiling) :
    (normalized libm count (F64.ofRat ceiling)).InUnit := by
  have arg : (F64.ofRat 0).le (F64.ofInt count) = true := by
    rw [F64.le_datum]
    exact nonneg_ofInt counted
  have logarithm := sound.ln_1p _ arg
  obtain ⟨finite,positive⟩ := sound.ln (F64.ofRat ceiling) (F64.finite_iff.mpr ⟨ceiling,rfl⟩) (F64.lt_ofRat.mpr above)
  obtain ⟨d,divisor⟩ := F64.finite_iff.mp finite
  rw [divisor] at positive
  rw [F64.le_datum] at logarithm
  have quotient := Datum.nonneg_div room64 logarithm (F64.lt_ofRat.mp positive)
  obtain ⟨p,least,lower,upper⟩ := quotient.min (zero_le_one' ℚ)
  refine F64.inUnit_iff.mpr ⟨p,?_,lower,upper⟩
  rw [normalized,divisor,F64.min,F64.div,F64.datum_ofDatum]
  exact congrArg F64.ofDatum least

theorem inUnit_recency (sound : libm.Sound) (valid : Valid policy) (fact : FactScoringRow) (now : DateTime) :
    (recency libm fact now policy).InUnit := by
  unfold recency
  split
  · exact ⟨F64.le_ofRat.mpr zero_le_one,F64.le_ofRat.mpr le_rfl⟩
  refine sound.exp2 _ ?_
  have half_life : ForgetPolicy.positive ((policy.half_life_overrides.lookup fact.fact_type).getD policy.half_life_days) = true := by
    cases found : policy.half_life_overrides.lookup fact.fact_type with
    | none => exact valid.half_life
    | some days =>
      obtain ⟨before,after,split,_⟩ := List.lookup_eq_some_iff.mp found
      exact valid.overrides (fact.fact_type,days) (by rw [split]; simp)
  obtain ⟨d,same,positive⟩ := positive_iff.mp half_life
  rw [same,F64.le_datum,F64.div,F64.datum_ofDatum,F64.neg,F64.datum_ofDatum,F64.max,F64.datum_ofDatum]
  exact Datum.div_nonpos room64 (Datum.nonneg_max _).neg positive

/-- A score is at most the total of the weights. -/
theorem score_range (sound : libm.Sound) (valid : policy.validate = .ok ()) {fact : FactScoringRow} (counted : 0 ≤ fact.access_count)
    (unit : (F64.num fact.base_importance).InUnit) (graph_degree : Nat) (now : DateTime) :
    (F64.ofRat 0).le (compute_importance libm fact graph_degree now policy) = true ∧
      (compute_importance libm fact graph_degree now policy).le policy.total = true := by
  have sane := valid_of_validate valid
  obtain ⟨w,recency_weight,first⟩ := weight_of_ok sane.recency
  obtain ⟨v,frequency_weight,second⟩ := weight_of_ok sane.frequency
  obtain ⟨w',graph_degree_weight,third⟩ := weight_of_ok sane.graph_degree
  obtain ⟨v',base_importance_weight,fourth⟩ := weight_of_ok sane.base_importance
  obtain ⟨r,recent,recency⟩ := F64.inUnit_iff.mp (inUnit_recency sound sane fact now)
  obtain ⟨f,often,frequency⟩ := F64.inUnit_iff.mp (inUnit_normalized sound counted (show (1 : ℚ) < 101 by norm_num))
  obtain ⟨c,linked,connectivity⟩ := F64.inUnit_iff.mp (inUnit_normalized sound (Int.natCast_nonneg graph_degree) (show (1 : ℚ) < 51 by norm_num))
  obtain ⟨b,prior,base_importance⟩ := F64.inUnit_iff.mp unit
  obtain ⟨left,left'⟩ := Datum.weighted_range room64 first second recency frequency
  obtain ⟨right,right'⟩ := Datum.weighted_range room64 third fourth connectivity base_importance
  have score : (compute_importance libm fact graph_degree now policy).datum =
      ((Datum.finite w).mul_add binary64 (.finite r) ((Datum.finite v).mul binary64 (.finite f))).add binary64
        ((Datum.finite w').mul_add binary64 (.finite c) ((Datum.finite v').mul binary64 (.finite b))) := by
    simp only [compute_importance,FREQUENCY_NORMALIZATION_ARG,CONNECTIVITY_NORMALIZATION_ARG,recent,often,linked,prior,recency_weight,
      frequency_weight,graph_degree_weight,base_importance_weight,F64.add,F64.mul_add,F64.mul,F64.datum_ofDatum]
    rfl
  have total : policy.total.datum =
      ((Datum.finite w).mul_add binary64 (.finite 1) ((Datum.finite v).mul binary64 (.finite 1))).add binary64
        ((Datum.finite w').mul_add binary64 (.finite 1) ((Datum.finite v').mul binary64 (.finite 1))) := by
    simp only [ForgetPolicy.total,recency_weight,frequency_weight,graph_degree_weight,base_importance_weight,F64.add,F64.mul_add,F64.mul,
      F64.datum_ofDatum]
    rfl
  rw [F64.le_datum,F64.le_datum,score,total]
  exact ⟨Datum.nonneg_add room64 left right,Datum.add_mono room64 left right left' right'⟩

theorem score_finite (sound : libm.Sound) (valid : policy.validate = .ok ()) (total : policy.total.is_finite = true) {fact : FactScoringRow}
    (counted : 0 ≤ fact.access_count) (unit : (F64.num fact.base_importance).InUnit) (graph_degree : Nat) (now : DateTime) :
    (compute_importance libm fact graph_degree now policy).is_finite = true := by
  obtain ⟨lower,upper⟩ := score_range sound valid counted unit graph_degree now
  obtain ⟨q,same⟩ := F64.finite_iff.mp total
  rw [same] at upper
  rw [F64.le_datum] at lower upper
  obtain ⟨p,score,_⟩ := Datum.finite_of_le lower upper
  rcases (compute_importance libm fact graph_degree now policy).shapes with shape | shape | shape | finite
  · rw [shape] at score
    cases score
  · rw [shape] at score
    cases score
  · rw [shape] at score
    cases score
  · exact F64.finite_iff.mpr finite

end Forget
end MemoryEngine
