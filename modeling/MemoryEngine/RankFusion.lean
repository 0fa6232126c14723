import Mathlib.Algebra.Order.BigOperators.Group.List
import Mathlib.Data.List.Induction

/-! Fusing rankings by the weights of ranks. Every list gives each of its items the weight
of its place, and a table adds up what an item is given. The table is kept as the list of
its entries; what it holds does not depend on how that list is arranged. -/

namespace RankFusion
variable {ι σ : Type} [DecidableEq ι]

/-- How a score is added up: where it starts, how a weight is added, and the weight of
    each rank. -/
structure Scale (σ : Type) where
  zero : σ
  add : σ → σ → σ
  weight : Nat → σ

namespace Scale
variable (scale : Scale σ)

/-- Add to the score of an item. -/
def credit (item : ι) (w : σ) : List (ι × σ) → List (ι × σ)
  | [] => [(item,scale.add scale.zero w)]
  | (other,score) :: rest => if other = item then (other,scale.add score w) :: rest else (other,score) :: credit item w rest

/-- Credit every item of a ranking, whose first item has the given rank. -/
def tally (ranking : List ι) (first : Nat) (scores : List (ι × σ)) : List (ι × σ) :=
  (ranking.zipIdx first).foldl (fun scores entry => scale.credit entry.1 (scale.weight entry.2) scores) scores

/-- The scores of several rankings together. -/
def fused (rankings : List (List ι)) : List (ι × σ) := rankings.foldl (fun scores ranking => scale.tally ranking 0 scores) []

/-- The ranks of an item, in the order of the rankings. -/
def ranks (rankings : List (List ι)) (item : ι) : List Nat := rankings.filterMap (fun ranking => ranking.idxOf? item)

/-- The weights of some ranks, added up in order. -/
def total (ranks : List Nat) : σ := ranks.foldl (fun sum rank => scale.add sum (scale.weight rank)) scale.zero

/-- What a partial map holds once every item of a ranking got its weight. -/
def given (held : ι → Option σ) (ranking : List ι) (first : Nat) (item : ι) : Option σ :=
  match ranking.idxOf? item with
  | none => held item
  | some rank => some (scale.add ((held item).getD scale.zero) (scale.weight (first + rank)))

/-- The score of an item. -/
def score (rankings : List (List ι)) (item : ι) : σ := scale.total (ranks rankings item)

end Scale

/-- The entries are those of a partial map, each item in one of them. -/
structure Represents (scores : List (ι × σ)) (held : ι → Option σ) : Prop where
  keys : (scores.map Prod.fst).Nodup
  entries : ∀ item score, (item,score) ∈ scores ↔ held item = some score

omit [DecidableEq ι] in
theorem represents_nil : Represents ([] : List (ι × σ)) fun _ => none := ⟨List.nodup_nil,by simp⟩

variable (scale : Scale σ)

theorem keys_credit {item : ι} {w : σ} {scores : List (ι × σ)} {key : ι} :
    key ∈ (scale.credit item w scores).map Prod.fst ↔ key = item ∨ key ∈ scores.map Prod.fst := by
  induction scores with
  | nil => simp [Scale.credit]
  | cons head rest ih =>
    obtain ⟨other,score⟩ := head
    unfold Scale.credit
    by_cases same : other = item
    · rw [if_pos same]
      simp only [List.map_cons,List.mem_cons,same]
      tauto
    · rw [if_neg same]
      simp only [List.map_cons,List.mem_cons,ih]
      tauto

/-- Crediting an item changes what the table holds of it and nothing else. -/
theorem Represents.credit {scores : List (ι × σ)} {held : ι → Option σ} (represents : Represents scores held) (item : ι) (w : σ) :
    Represents (scale.credit item w scores) (Function.update held item (some (scale.add ((held item).getD scale.zero) w))) := by
  induction scores generalizing held with
  | nil =>
    have empty : ∀ key, held key = none := fun key => Option.eq_none_iff_forall_ne_some.mpr fun score present => by
      cases (represents.entries key score).mpr present
    refine ⟨by simp [Scale.credit],fun key score => ?_⟩
    by_cases same : key = item
    · subst same
      simp [Scale.credit,empty,eq_comm]
    · simp [Scale.credit,empty,same]
  | cons head rest ih =>
    obtain ⟨other,value⟩ := head
    obtain ⟨apart,distinct⟩ := List.nodup_cons.mp represents.keys
    have first : held other = some value := (represents.entries other value).mp List.mem_cons_self
    have absent : ∀ score, (other,score) ∉ rest := fun score member => apart (List.mem_map.mpr ⟨_,member,rfl⟩)
    unfold Scale.credit
    by_cases same : other = item
    · rw [if_pos same]
      subst same
      refine ⟨represents.keys,fun key score => ?_⟩
      by_cases here : key = other
      · subst here
        simp [first,absent,eq_comm]
      · have behind : (key,score) ∈ rest ↔ held key = some score := by
          rw [← represents.entries]
          simp [here]
        simp [here,behind]
    · rw [if_neg same]
      -- The rest is the table without its first item.
      have smaller : Represents rest (Function.update held other none) := by
        refine ⟨distinct,fun key score => ?_⟩
        by_cases here : key = other
        · subst here
          simp [absent]
        · rw [Function.update_of_ne here,← represents.entries]
          simp [here]
      have later := ih smaller
      refine ⟨?_,fun key score => ?_⟩
      · rw [List.map_cons,List.nodup_cons]
        refine ⟨fun listed => ?_,later.keys⟩
        rcases (keys_credit scale).mp listed with now_ | before
        · exact same now_
        · exact apart before
      · rw [List.mem_cons,later.entries]
        by_cases here : key = other
        · subst here
          simp [same,first,eq_comm]
        · by_cases there : key = item
          · subst there
            simp [here]
          · simp [here,there]

omit [DecidableEq ι] in
theorem Represents.congr {scores : List (ι × σ)} {held held' : ι → Option σ} (represents : Represents scores held)
    (same : ∀ item, held item = held' item) : Represents scores held' := funext same ▸ represents

/-- Crediting a ranking without duplicates gives each of its items the weight of its rank. -/
theorem Represents.tally {ranking : List ι} (nodup : ranking.Nodup) (first : Nat) {scores : List (ι × σ)} {held : ι → Option σ}
    (represents : Represents scores held) : Represents (scale.tally ranking first scores) (scale.given held ranking first) := by
  induction ranking generalizing first scores held with
  | nil => exact represents
  | cons x rest ih =>
    obtain ⟨apart,distinct⟩ := List.nodup_cons.mp nodup
    have behind : rest.idxOf? x = none := List.idxOf?_eq_none_iff.mpr apart
    refine (ih distinct (first + 1) (represents.credit scale x (scale.weight first))).congr fun item => ?_
    unfold Scale.given
    rw [List.idxOf?_cons]
    by_cases here : x = item
    · subst here
      simp [behind]
    · have other : item ≠ x := fun same => here same.symm
      simp only [Function.update_of_ne other,beq_iff_eq,here,if_false]
      cases rest.idxOf? item with
      | none => rfl
      | some rank => simp [Nat.add_assoc,Nat.add_comm 1 rank]

theorem ranks_concat (rankings : List (List ι)) (ranking : List ι) (item : ι) :
    Scale.ranks (rankings ++ [ranking]) item = Scale.ranks rankings item ++ (ranking.idxOf? item).toList := by
  unfold Scale.ranks
  rw [List.filterMap_append]
  cases found : ranking.idxOf? item with
  | none => simp only [List.filterMap_cons,List.filterMap_nil,found,Option.toList_none]
  | some rank => simp only [List.filterMap_cons,List.filterMap_nil,found,Option.toList_some]

theorem ranks_eq_nil {rankings : List (List ι)} {item : ι} :
    Scale.ranks rankings item = [] ↔ ∀ ranking ∈ rankings, item ∉ ranking := by
  simp [Scale.ranks,List.filterMap_eq_nil_iff]

/-- The table holds the score of every item that is ranked. -/
theorem represents_fused {rankings : List (List ι)} (nodup : ∀ ranking ∈ rankings, ranking.Nodup) :
    Represents (scale.fused rankings) fun item => if Scale.ranks rankings item = [] then none else some (scale.score rankings item) := by
  induction rankings using List.reverseRecOn with
  | nil => exact represents_nil
  | append_singleton rankings ranking ih =>
    have before := ih fun earlier member => nodup earlier (List.mem_append_left _ member)
    have last : ranking.Nodup := nodup ranking (List.mem_append_right _ (List.mem_singleton_self _))
    have unfolded : scale.fused (rankings ++ [ranking]) = scale.tally ranking 0 (scale.fused rankings) := by
      rw [Scale.fused,List.foldl_append]
      rfl
    rw [unfolded]
    refine (before.tally scale last 0).congr fun item => ?_
    unfold Scale.given Scale.score
    rw [ranks_concat]
    cases ranking.idxOf? item with
    | none => simp
    | some rank =>
      by_cases empty : Scale.ranks rankings item = []
      · simp [empty,Scale.total]
      · simp [empty,Scale.total]

theorem mem_fused {rankings : List (List ι)} (nodup : ∀ ranking ∈ rankings, ranking.Nodup) {item : ι} {value : σ} :
    (item,value) ∈ scale.fused rankings ↔ (∃ ranking ∈ rankings, item ∈ ranking) ∧ value = scale.score rankings item := by
  have ranked : Scale.ranks rankings item = [] ↔ ¬ ∃ ranking ∈ rankings, item ∈ ranking := by
    rw [ranks_eq_nil]
    push Not
    rfl
  rw [(represents_fused scale nodup).entries]
  by_cases empty : Scale.ranks rankings item = []
  · simp [if_pos empty,ranked.mp empty]
  · rw [if_neg empty,Option.some.injEq,eq_comm]
    simp [not_not.mp (mt ranked.mpr empty)]

section sums
variable [AddCommMonoid σ]

/-- Scores that are sums of weights. -/
def Scale.sums (weight : Nat → σ) : Scale σ := ⟨0,(· + ·),weight⟩

variable (weight : Nat → σ)

/-- What one ranking adds to the score of an item. -/
def share (item : ι) (ranking : List ι) : σ := ((ranking.idxOf? item).map weight).getD 0

theorem score_sums (rankings : List (List ι)) (item : ι) :
    (Scale.sums weight).score rankings item = (rankings.map (share weight item)).sum := by
  induction rankings using List.reverseRecOn with
  | nil => rfl
  | append_singleton rankings ranking ih =>
    unfold Scale.score
    rw [ranks_concat,List.map_append,List.sum_append,← ih]
    unfold Scale.score Scale.total
    rw [List.foldl_append,List.map_singleton,List.sum_singleton,share]
    cases ranking.idxOf? item with
    | none => exact (add_zero _).symm
    | some rank => rfl

/-- The first item ranks at least as high as the second in every ranking of the second,
    and strictly higher in one that has the first. -/
structure Dominates (rankings : List (List ι)) (first second : ι) : Prop where
  everywhere : ∀ ranking ∈ rankings, second ∈ ranking → first ∈ ranking ∧ ranking.idxOf first ≤ ranking.idxOf second
  somewhere : ∃ ranking ∈ rankings, first ∈ ranking ∧ (second ∈ ranking → ranking.idxOf first < ranking.idxOf second)

variable {weight}

theorem share_of_mem {item : ι} {ranking : List ι} (member : item ∈ ranking) : share weight item ranking = weight (ranking.idxOf item) := by
  obtain ⟨rank,found⟩ := Option.isSome_iff_exists.mp (List.isSome_idxOf?.mpr member)
  have place : ranking.idxOf item = rank := by rw [List.idxOf_eq_getD_idxOf?,found,Option.getD_some]
  rw [share,found,place]
  rfl

theorem share_of_not_mem {item : ι} {ranking : List ι} (absent : item ∉ ranking) : share weight item ranking = 0 := by
  rw [share,List.idxOf?_eq_none_iff.mpr absent]
  rfl

variable [LinearOrder σ] [IsOrderedCancelAddMonoid σ]

/-- A dominating item has the higher score, where weights are positive and fall with the rank. -/
theorem Dominates.score_lt {rankings : List (List ι)} {first second : ι} (dominates : Dominates rankings first second)
    (positive : ∀ rank, 0 < weight rank)
    (falling : ∀ ranking ∈ rankings, ∀ rank rank', rank < rank' → rank' < ranking.length → weight rank' < weight rank) :
    (Scale.sums weight).score rankings second < (Scale.sums weight).score rankings first := by
  rw [score_sums,score_sums]
  refine List.sum_lt_sum _ _ (fun ranking listed => ?_) ?_
  · by_cases member : second ∈ ranking
    · obtain ⟨there,higher⟩ := dominates.everywhere ranking listed member
      rw [share_of_mem member,share_of_mem there]
      rcases higher.lt_or_eq with strictly | level
      · exact (falling ranking listed _ _ strictly (List.idxOf_lt_length_iff.mpr member)).le
      · rw [level]
    · rw [share_of_not_mem member]
      by_cases there : first ∈ ranking
      · rw [share_of_mem there]
        exact (positive _).le
      · rw [share_of_not_mem there]
  · obtain ⟨ranking,listed,there,strictly⟩ := dominates.somewhere
    refine ⟨ranking,listed,?_⟩
    rw [share_of_mem there]
    by_cases member : second ∈ ranking
    · rw [share_of_mem member]
      exact falling ranking listed _ _ (strictly member) (List.idxOf_lt_length_iff.mpr member)
    · rw [share_of_not_mem member]
      exact positive _

end sums
end RankFusion
