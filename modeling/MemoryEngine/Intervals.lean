import Mathlib.Data.List.Basic
import Mathlib.Data.List.Sort
import Mathlib.Data.List.Induction
import Mathlib.Order.Lattice

/-! Half-open intervals of a linear order. Taken one after another, an interval is kept
unless it meets one that is kept already. -/

namespace MemoryEngine.Intervals

variable {ι τ : Type} [LinearOrder τ] (lo hi : ι → τ)

/-- The two have a point in common, when neither is empty. -/
def Meets (x y : ι) : Prop := lo x < hi y ∧ lo y < hi x

instance (x y : ι) : Decidable (Meets lo hi x y) := inferInstanceAs (Decidable (_ ∧ _))

/-- A point lies in one of the intervals. -/
def Covers (xs : List ι) (p : τ) : Prop := ∃ x ∈ xs, lo x ≤ p ∧ p < hi x

/-- Every point of an interval lies in one of the others. -/
def Inside (xs : List ι) (x : ι) : Prop := ∀ p, lo x ≤ p → p < hi x → Covers lo hi xs p

def Apart (xs : List ι) (x : ι) : Prop := ∀ y ∈ xs, ¬ Meets lo hi x y

instance (xs : List ι) (x : ι) : Decidable (Apart lo hi xs x) := inferInstanceAs (Decidable (∀ y ∈ xs, ¬ Meets lo hi x y))

/-- An interval is kept unless it meets one that is kept already. -/
def fit (kept : List ι) (x : ι) : List ι := if Apart lo hi kept x then kept ++ [x] else kept

variable {lo hi}

theorem Meets.symm {x y : ι} (meets : Meets lo hi x y) : Meets lo hi y x := ⟨meets.2,meets.1⟩

theorem meets_of_point {x y : ι} {p : τ} (first : lo x ≤ p ∧ p < hi x) (second : lo y ≤ p ∧ p < hi y) : Meets lo hi x y :=
  ⟨first.1.trans_lt second.2,second.1.trans_lt first.2⟩

theorem meets_iff {x y : ι} (solid : lo x < hi x) (solid' : lo y < hi y) :
    Meets lo hi x y ↔ ∃ p, (lo x ≤ p ∧ p < hi x) ∧ lo y ≤ p ∧ p < hi y := by
  constructor
  · intro meets
    exact ⟨max (lo x) (lo y),⟨le_max_left _ _,max_lt solid meets.2⟩,le_max_right _ _,max_lt meets.1 solid'⟩
  · rintro ⟨p,first,second⟩
    exact meets_of_point first second

theorem covers_append {xs ys : List ι} {p : τ} : Covers lo hi (xs ++ ys) p ↔ Covers lo hi xs p ∨ Covers lo hi ys p := by
  simp only [Covers,List.mem_append,or_and_right,exists_or]

theorem Covers.mono {xs ys : List ι} {p : τ} (covers : Covers lo hi xs p) (part : ∀ x ∈ xs, x ∈ ys) : Covers lo hi ys p := by
  obtain ⟨x,member,inside⟩ := covers
  exact ⟨x,part x member,inside⟩

theorem apart_congr {xs ys : List ι} {x : ι} (solid : ∀ y ∈ x :: (xs ++ ys), lo y < hi y)
    (same : ∀ p, Covers lo hi xs p ↔ Covers lo hi ys p) : Apart lo hi xs x ↔ Apart lo hi ys x := by
  have covered : ∀ zs : List ι, (∀ z ∈ zs, lo z < hi z) → (Apart lo hi zs x ↔ ∀ p, lo x ≤ p → p < hi x → ¬ Covers lo hi zs p) := by
    intro zs good
    constructor
    · rintro apart p low high ⟨z,member,inside⟩
      exact apart z member (meets_of_point ⟨low,high⟩ inside)
    · intro free z member meets
      obtain ⟨p,⟨low,high⟩,inside⟩ := (meets_iff (solid x List.mem_cons_self) (good z member)).mp meets
      exact free p low high ⟨z,member,inside⟩
  rw [covered xs fun z member => solid z (List.mem_cons_of_mem _ (List.mem_append_left _ member)),
    covered ys fun z member => solid z (List.mem_cons_of_mem _ (List.mem_append_right _ member))]
  simp only [same]

/-! ## First fit -/

theorem fit_prefix (kept : List ι) (x : ι) : kept <+: fit lo hi kept x := by
  by_cases apart : Apart lo hi kept x
  · have grown : fit lo hi kept x = kept ++ [x] := if_pos apart
    exact ⟨[x],grown.symm⟩
  · have unchanged : fit lo hi kept x = kept := if_neg apart
    exact ⟨[],by rw [unchanged,List.append_nil]⟩

theorem mem_fit {kept : List ι} {x y : ι} (member : y ∈ fit lo hi kept x) : y ∈ kept ∨ y = x := by
  unfold fit at member
  by_cases apart : Apart lo hi kept x
  · rw [if_pos apart] at member
    simpa using member
  · rw [if_neg apart] at member
    exact Or.inl member

theorem mem_foldl_fit {kept xs : List ι} {y : ι} (member : y ∈ xs.foldl (fit lo hi) kept) : y ∈ kept ∨ y ∈ xs := by
  induction xs generalizing kept with
  | nil => exact Or.inl member
  | cons x xs ih =>
    rcases ih member with first | later
    · rcases mem_fit first with old | rfl
      · exact Or.inl old
      · exact Or.inr List.mem_cons_self
    · exact Or.inr (List.mem_cons_of_mem _ later)

theorem foldl_fit_prefix (kept xs : List ι) : kept <+: xs.foldl (fit lo hi) kept := by
  induction xs generalizing kept with
  | nil => exact List.prefix_rfl
  | cons x xs ih => exact ( fit_prefix kept x).trans (ih (fit lo hi kept x))

/-- The first interval is kept. -/
theorem foldl_fit_eq_nil {xs : List ι} : xs.foldl (fit lo hi) [] = [] ↔ xs = [] := by
  constructor
  · intro none_
    cases xs with
    | nil => rfl
    | cons x xs =>
      have first : fit lo hi [] x = [x] := if_pos fun y member => absurd member List.not_mem_nil
      rw [List.foldl_cons,first] at none_
      have kept : [x] <+: xs.foldl (fit lo hi) [x] := foldl_fit_prefix [x] xs
      rw [none_] at kept
      cases List.prefix_nil.mp kept
  · rintro rfl
    rfl

/-- What is kept does not meet one another. -/
theorem pairwise_fit {kept : List ι} (apart : kept.Pairwise fun x y => ¬ Meets lo hi x y) (x : ι) :
    (fit lo hi kept x).Pairwise fun x y => ¬ Meets lo hi x y := by
  unfold fit
  by_cases free : Apart lo hi kept x
  · rw [if_pos free,List.pairwise_append]
    refine ⟨apart,List.pairwise_singleton _ _,fun y member z last => ?_⟩
    rw [List.mem_singleton.mp last]
    exact fun meets => free y member meets.symm
  · rw [if_neg free]
    exact apart

theorem pairwise_foldl_fit {kept : List ι} (apart : kept.Pairwise fun x y => ¬ Meets lo hi x y) (xs : List ι) :
    (xs.foldl (fit lo hi) kept).Pairwise fun x y => ¬ Meets lo hi x y := by
  induction xs generalizing kept with
  | nil => exact apart
  | cons x xs ih => exact ih (pairwise_fit apart x)

/-- An interval that lies among others meets one of them when it meets what is kept without. -/
theorem fit_filter {kept alone : List ι} {x : ι} (solid : ∀ y ∈ x :: (kept ++ alone), lo y < hi y)
    (nested : ∀ y ∈ fit lo hi alone x, Apart lo hi kept y ∨ Inside lo hi kept y) :
    fit lo hi (kept ++ alone.filter fun y => Apart lo hi kept y) x = kept ++ (fit lo hi alone x).filter fun y => Apart lo hi kept y := by
  by_cases free : Apart lo hi alone x
  · have self : x ∈ fit lo hi alone x := by
      rw [fit,if_pos free]
      exact List.mem_append_right _ List.mem_cons_self
    have free' : Apart lo hi (kept ++ alone.filter fun y => Apart lo hi kept y) x ↔ Apart lo hi kept x := by
      constructor
      · exact fun apart y member => apart y (List.mem_append_left _ member)
      · intro apart y member
        rcases List.mem_append.mp member with old | new
        · exact apart y old
        · exact free y (List.mem_filter.mp new).1
    rw [show fit lo hi alone x = alone ++ [x] by rw [fit,if_pos free],List.filter_append,fit]
    by_cases apart : Apart lo hi kept x
    · rw [if_pos (free'.mpr apart),List.filter_cons_of_pos (by simpa using apart),List.filter_nil,List.append_assoc]
    · rw [if_neg (mt free'.mp apart),List.filter_cons_of_neg (by simpa using apart),List.filter_nil,List.append_nil]
  · have blocked : ¬ Apart lo hi (kept ++ alone.filter fun y => Apart lo hi kept y) x := by
      intro apart
      obtain ⟨y,member,meets⟩ : ∃ y ∈ alone, Meets lo hi x y := by
        simpa only [Apart,not_forall,not_not,exists_prop] using free
      have listed : y ∈ fit lo hi alone x := ( fit_prefix alone x).subset member
      rcases nested y listed with outside | inside
      · exact apart y (List.mem_append_right _ (List.mem_filter.mpr ⟨member,by simpa using outside⟩)) meets
      · obtain ⟨p,first,second⟩ := (meets_iff (solid x List.mem_cons_self)
          (solid y (List.mem_cons_of_mem _ (List.mem_append_right _ member)))).mp meets
        obtain ⟨z,there,holds⟩ := inside p second.1 second.2
        exact apart z (List.mem_append_left _ there) (meets_of_point first holds)
    rw [fit,if_neg blocked,fit,if_neg free]

/-- Intervals that are kept alone, each apart from those before or among them: with those
    before, the ones that are apart are kept. -/
theorem foldl_fit_filter {kept xs : List ι} (solid : ∀ y ∈ kept ++ xs, lo y < hi y)
    (nested : ∀ y ∈ xs.foldl (fit lo hi) [], Apart lo hi kept y ∨ Inside lo hi kept y) :
    xs.foldl (fit lo hi) kept = kept ++ (xs.foldl (fit lo hi) []).filter fun y => Apart lo hi kept y := by
  induction xs using List.reverseRecOn with
  | nil => simp
  | append_singleton xs x ih =>
    rw [List.foldl_append,List.foldl_append,List.foldl_cons,List.foldl_nil,List.foldl_cons,List.foldl_nil] at *
    have before : ∀ y ∈ xs.foldl (fit lo hi) [], Apart lo hi kept y ∨ Inside lo hi kept y :=
      fun y member => nested y (( fit_prefix _ x).subset member)
    rw [ih (fun y member => solid y (by simp only [List.mem_append] at member ⊢; tauto)) before]
    refine fit_filter (fun y member => ?_) nested
    rcases List.mem_cons.mp member with rfl | member
    · exact solid y (by simp)
    · rcases List.mem_append.mp member with old | alone
      · exact solid y (List.mem_append_left _ old)
      · have listed := (mem_foldl_fit alone).resolve_left List.not_mem_nil
        exact solid y (by simp [listed])

/-- Together they cover what the intervals before and the intervals alone cover. -/
theorem covers_foldl_fit {kept xs : List ι} (solid : ∀ y ∈ kept ++ xs, lo y < hi y)
    (nested : ∀ y ∈ xs.foldl (fit lo hi) [], Apart lo hi kept y ∨ Inside lo hi kept y) (p : τ) :
    Covers lo hi (xs.foldl (fit lo hi) kept) p ↔ Covers lo hi (kept ++ xs.foldl (fit lo hi) []) p := by
  rw [foldl_fit_filter solid nested,covers_append,covers_append]
  constructor
  · rintro (old | ⟨y,member,inside⟩)
    · exact Or.inl old
    · exact Or.inr ⟨y,(List.mem_filter.mp member).1,inside⟩
  · rintro (old | ⟨y,member,low,high⟩)
    · exact Or.inl old
    · rcases nested y member with apart | inside
      · exact Or.inr ⟨y,List.mem_filter.mpr ⟨member,by simpa using apart⟩,low,high⟩
      · exact Or.inl (inside p low high)

theorem foldl_fit_of_pairwise {xs : List ι} (apart : xs.Pairwise fun x y => ¬ Meets lo hi x y) : xs.foldl (fit lo hi) [] = xs := by
  induction xs using List.reverseRecOn with
  | nil => rfl
  | append_singleton xs x ih =>
    obtain ⟨before,_,last⟩ := List.pairwise_append.mp apart
    rw [List.foldl_append,ih before,List.foldl_cons,List.foldl_nil,fit,if_pos]
    exact fun y member meets => last y member x List.mem_cons_self meets.symm

/-- Each interval of a stage is apart from the stages before it, or among them. -/
def Nested (lo hi : ι → τ) (before : List ι) : List (List ι) → Prop
  | [] => True
  | stage :: stages => (∀ x ∈ stage, Apart lo hi before x ∨ Inside lo hi before x) ∧ Nested lo hi (before ++ stage) stages

/-- Stages that nest are covered by first fit through all of them. -/
theorem covers_stages {stages : List (List ι)} {kept before : List ι} (solid : ∀ x ∈ kept ++ before ++ stages.flatten, lo x < hi x)
    (same : ∀ p, Covers lo hi kept p ↔ Covers lo hi before p) (nested : Nested lo hi before (stages.map fun stage => stage.foldl (fit lo hi) []))
    (p : τ) : Covers lo hi (stages.flatten.foldl (fit lo hi) kept) p ↔
      Covers lo hi (before ++ (stages.map fun stage => stage.foldl (fit lo hi) []).flatten) p := by
  induction stages generalizing kept before with
  | nil => simpa using same p
  | cons stage stages ih =>
    obtain ⟨each,later⟩ := nested
    have solid' : ∀ x, x ∈ kept ∨ x ∈ before ∨ x ∈ stage ∨ x ∈ stages.flatten → lo x < hi x := by
      intro x member
      refine solid x ?_
      simp only [List.flatten_cons,List.mem_append]
      tauto
    have alone : ∀ x ∈ stage.foldl (fit lo hi) [], x ∈ stage := fun x member => (mem_foldl_fit member).resolve_left List.not_mem_nil
    have each' : ∀ x ∈ stage.foldl (fit lo hi) [], Apart lo hi kept x ∨ Inside lo hi kept x := by
      intro x member
      rcases each x member with apart | inside
      · refine Or.inl ((apart_congr (fun y listed => ?_) same).mpr apart)
        rcases List.mem_cons.mp listed with rfl | others
        · exact solid' _ (Or.inr (Or.inr (Or.inl (alone _ member))))
        · rcases List.mem_append.mp others with old | new
          · exact solid' y (Or.inl old)
          · exact solid' y (Or.inr (Or.inl new))
      · exact Or.inr fun p low high => (same p).mpr (inside p low high)
    rw [List.flatten_cons,List.foldl_append,List.map_cons,List.flatten_cons,← List.append_assoc]
    refine ih (fun x member => ?_) (fun p => ?_) later
    · simp only [List.mem_append] at member
      rcases member with (held | old | fresh) | rest
      · rcases mem_foldl_fit held with old | new
        · exact solid' x (Or.inl old)
        · exact solid' x (Or.inr (Or.inr (Or.inl new)))
      · exact solid' x (Or.inr (Or.inl old))
      · exact solid' x (Or.inr (Or.inr (Or.inl (alone x fresh))))
      · exact solid' x (Or.inr (Or.inr (Or.inr rest)))
    · rw [covers_foldl_fit (fun x member => ?_) each',covers_append,covers_append,same]
      rcases List.mem_append.mp member with old | new
      · exact solid' x (Or.inl old)
      · exact solid' x (Or.inr (Or.inr (Or.inl new)))

/-! ## In order -/

/-- Sorted by where they start, intervals that do not meet follow one another. -/
theorem chain_of_sorted {xs : List ι} (solid : ∀ x ∈ xs, lo x < hi x) (apart : xs.Pairwise fun x y => ¬ Meets lo hi x y)
    (sorted : xs.Pairwise fun x y => lo x ≤ lo y) : xs.Pairwise fun x y => hi x ≤ lo y := by
  refine List.Pairwise.imp_of_mem ?_ (apart.and sorted)
  rintro x y here there ⟨separate,ordered⟩
  by_contra late
  exact separate ⟨ordered.trans_lt (solid y there),not_le.mp late⟩

end MemoryEngine.Intervals
