import MemoryEngine.ClusterFusion
import Mathlib.Data.List.FinRange
import Mathlib.Logic.Relation

/-! Single-linkage clusters are connected components. The loop over the indices of the
facts, with its marks of what is assigned and a cluster that grows under the scan, is
followed to the recursion over what is unassigned. -/

namespace MemoryEngine.Fusion
open Rounding

section components
variable {α : Type} (similar : α → α → Bool)

/-- Two of the items that are similar. -/
def Joined (items : List α) (x y : α) : Prop := x ∈ items ∧ y ∈ items ∧ similar x y = true

def Connected (items : List α) : α → α → Prop := Relation.ReflTransGen (Joined similar items)

variable {similar}

theorem mem_near {anchor k : α} {items : List α} : k ∈ near similar anchor items ↔ k ∈ items ∧ similar anchor k = true := List.mem_filter

theorem mem_far {anchor k : α} {items : List α} : k ∈ far similar anchor items ↔ k ∈ items ∧ similar anchor k = false := by
  simp [far]

/-- What a similar item takes on from an anchor holds of the whole cluster. -/
theorem expand_reaches {reached : α → Prop} {anchors cluster unassigned : List α} (anchored : ∀ a ∈ anchors, a ∈ cluster)
    (start : ∀ x ∈ cluster, reached x) (step : ∀ a k, reached a → k ∈ unassigned → similar a k = true → reached k) :
    ∀ x ∈ (expand similar anchors cluster unassigned).1, reached x := by
  fun_induction expand similar anchors cluster unassigned with
  | case1 cluster unassigned => exact start
  | case2 cluster unassigned anchor rest ih =>
    have fresh : ∀ k ∈ near similar anchor unassigned, reached k := by
      intro k close
      obtain ⟨waiting,like⟩ := mem_near.mp close
      exact step anchor k (start anchor (anchored anchor List.mem_cons_self)) waiting like
    refine ih ?_ ?_ ?_
    · intro a listed
      rcases List.mem_append.mp listed with old | new
      · exact List.mem_append_left _ (anchored a (List.mem_cons_of_mem _ old))
      · exact List.mem_append_right _ new
    · intro x listed
      rcases List.mem_append.mp listed with old | new
      · exact start x old
      · exact fresh x new
    · exact fun a k here waiting like => step a k here (mem_far.mp waiting).1 like

/-- When no anchor is left, nothing unassigned is similar to a member of the cluster. -/
theorem expand_closes {anchors cluster unassigned : List α}
    (closed : ∀ a ∈ cluster, a ∈ anchors ∨ ∀ u ∈ unassigned, similar a u = false) :
    ∀ a ∈ (expand similar anchors cluster unassigned).1, ∀ u ∈ (expand similar anchors cluster unassigned).2, similar a u = false := by
  fun_induction expand similar anchors cluster unassigned with
  | case1 cluster unassigned =>
    intro a member
    rcases closed a member with waiting | apart
    · exact absurd waiting List.not_mem_nil
    · exact apart
  | case2 cluster unassigned anchor rest ih =>
    refine ih fun a listed => ?_
    rcases List.mem_append.mp listed with old | new
    · rcases closed a old with waiting | apart
      · rcases List.mem_cons.mp waiting with rfl | later
        · exact .inr fun u outside => (mem_far.mp outside).2
        · exact .inl (List.mem_append_left _ later)
      · exact .inr fun u outside => apart u (mem_far.mp outside).1
    · exact .inl (List.mem_append_right _ new)

theorem expand_left {anchors cluster unassigned : List α} : ∀ u ∈ (expand similar anchors cluster unassigned).2, u ∈ unassigned := by
  fun_induction expand similar anchors cluster unassigned with
  | case1 cluster unassigned => exact fun _ listed => listed
  | case2 cluster unassigned anchor rest ih => exact fun u listed => (mem_far.mp (ih u listed)).1

theorem expand_keeps {anchors cluster unassigned : List α} : ∀ x ∈ cluster, x ∈ (expand similar anchors cluster unassigned).1 := by
  fun_induction expand similar anchors cluster unassigned with
  | case1 cluster unassigned => exact fun _ listed => listed
  | case2 cluster unassigned anchor rest ih => exact fun x listed => ih x (List.mem_append_left _ listed)

theorem Connected.mono {items items' : List α} (more : ∀ x ∈ items, x ∈ items') {x y : α} (connected : Connected similar items x y) :
    Connected similar items' x y := by
  have wider : ∀ a b, Joined similar items a b → Joined similar items' a b := by
    rintro a b ⟨left,right,like⟩
    exact ⟨more a left,more b right,like⟩
  exact Relation.ReflTransGen.mono wider _ _ connected

theorem greedy_cluster_ne_nil {items : List α} : ∀ C ∈ greedy_cluster similar items, C ≠ [] := by
  fun_induction greedy_cluster similar items with
  | case1 => exact fun C listed => absurd listed List.not_mem_nil
  | case2 i rest ih =>
    intro C listed
    rcases List.mem_cons.mp listed with rfl | later
    · exact List.ne_nil_of_mem (expand_keeps i List.mem_cons_self)
    · exact ih C later

variable (symmetric : ∀ x y, similar x y = similar y x)
include symmetric

theorem Connected.symm {items : List α} {x y : α} (connected : Connected similar items x y) : Connected similar items y x := by
  induction connected with
  | refl => exact .refl
  | tail _ step ih =>
    obtain ⟨left,right,like⟩ := step
    exact Relation.ReflTransGen.head ⟨right,left,(symmetric _ _).trans like⟩ ih

/-- Each cluster is the component of any of its members. -/
theorem greedy_cluster_components {items : List α} (distinct : items.Nodup) : ∀ C ∈ greedy_cluster similar items, ∀ x ∈ C, ∀ y ∈ items,
    (y ∈ C ↔ Connected similar items x y) := by
  fun_induction greedy_cluster similar items with
  | case1 => exact fun C listed => absurd listed List.not_mem_nil
  | case2 i rest ih =>
    have parts : ((expand similar [i] [i] rest).1 ++ (expand similar [i] [i] rest).2).Perm (i :: rest) := expand_perm similar [i] [i] rest
    have pieces := parts.nodup_iff.mpr distinct
    obtain ⟨_,nodup,apart⟩ := List.nodup_append.mp pieces
    have split {y : α} : y ∈ i :: rest ↔ y ∈ (expand similar [i] [i] rest).1 ∨ y ∈ (expand similar [i] [i] rest).2 := by
      rw [← parts.mem_iff,List.mem_append]
    have closed : ∀ a ∈ (expand similar [i] [i] rest).1, ∀ u ∈ (expand similar [i] [i] rest).2, similar a u = false :=
      expand_closes fun a member => .inl member
    intro C listed x inside y among
    rcases List.mem_cons.mp listed with rfl | later
    · have reached : ∀ z ∈ (expand similar [i] [i] rest).1, Connected similar (i :: rest) i z ∧ z ∈ i :: rest := by
        refine expand_reaches (fun a member => member) ?_ ?_
        · intro z member
          obtain rfl := List.mem_singleton.mp member
          exact ⟨.refl,List.mem_cons_self⟩
        · rintro a k ⟨connected,present⟩ waiting like
          have there := List.mem_cons_of_mem i waiting
          exact ⟨connected.tail ⟨present,there,like⟩,there⟩
      constructor
      · intro member
        exact (Connected.symm symmetric (reached x inside).1).trans (reached y member).1
      · intro connected
        clear among
        induction connected with
        | refl => exact inside
        | tail _ step ih =>
          obtain ⟨_,right,like⟩ := step
          rcases split.mp right with member | outside
          · exact member
          · rw [closed _ ih _ outside] at like
            cases like
    · have present : x ∈ (expand similar [i] [i] rest).2 :=
        (greedy_cluster_perm similar _).mem_iff.mp (List.mem_flatten.mpr ⟨C,later,inside⟩)
      have within {z : α} (member : z ∈ C) : z ∈ (expand similar [i] [i] rest).2 :=
        (greedy_cluster_perm similar _).mem_iff.mp (List.mem_flatten.mpr ⟨C,later,member⟩)
      constructor
      · intro member
        refine Connected.mono (fun z listed => split.mpr (.inr listed)) ?_
        exact (ih nodup C later x inside y (within member)).mp member
      · intro connected
        -- a chain that starts outside of the new cluster stays outside of it
        have stays : y ∈ (expand similar [i] [i] rest).2 ∧ Connected similar (expand similar [i] [i] rest).2 x y := by
          clear among
          induction connected with
          | refl => exact ⟨present,.refl⟩
          | tail _ step ih =>
            obtain ⟨_,right,like⟩ := step
            rcases split.mp right with member | outside
            · have none_ := closed _ member _ ih.1
              rw [symmetric,none_] at like
              cases like
            · exact ⟨outside,ih.2.tail ⟨ih.1,outside,like⟩⟩
        exact (ih nodup C later x inside y stays.1).mpr stays.2

end components

/-! ## The loop over the indices -/

section indices
variable {n : Nat} (similar : Fin n → Fin n → Bool)

/-- Which indices are assigned, and the cluster at hand. -/
structure Growth (n : Nat) where
  assigned : Fin n → Bool
  cluster : List (Fin n)

/-- One index of the inner loop: it joins the cluster when it is similar to the anchor. -/
def absorb (anchor : Fin n) (g : Growth n) (k : Fin n) : Growth n :=
  if g.assigned k then g else
  if similar anchor k then ⟨Function.update g.assigned k true,g.cluster ++ [k]⟩ else g

/-- Take the members of the cluster as anchors, also those that join meanwhile; `fuel` bounds
    their number. -/
def scan : Nat → Nat → Growth n → Option (Growth n)
  | 0,_,_ => none
  | fuel + 1,j,g =>
    match g.cluster[j]? with
    | none => some g
    | some anchor => scan fuel (j + 1) ((List.finRange n).foldl (absorb similar anchor) g)

/-- One index of the outer loop. -/
def visit (fuel : Nat) (state : (Fin n → Bool) × List (List (Fin n))) (i : Fin n) : Option ((Fin n → Bool) × List (List (Fin n))) :=
  if state.1 i then some state else do
    let g ← scan similar fuel 0 ⟨Function.update state.1 i true,[i]⟩
    return (g.assigned,state.2 ++ [g.cluster])

/-- The clusters as lists of indices. -/
def cluster_indices (fuel : Nat) : Option (List (List (Fin n))) := do
  let state ← (List.finRange n).foldlM (visit similar fuel) (fun _ => false,[])
  return state.2

/-- The indices that are in no cluster yet. -/
def unassigned (assigned : Fin n → Bool) : List (Fin n) := (List.finRange n).filter fun k => !assigned k

theorem mem_unassigned {assigned : Fin n → Bool} {k : Fin n} : k ∈ unassigned assigned ↔ assigned k = false := by
  simp [unassigned]

theorem absorb_loop (anchor : Fin n) {indices : List (Fin n)} (distinct : indices.Nodup) (g : Growth n) :
    (indices.foldl (absorb similar anchor) g).cluster = g.cluster ++ indices.filter (fun k => !g.assigned k && similar anchor k) ∧
      ∀ x, (indices.foldl (absorb similar anchor) g).assigned x = (g.assigned x || (decide (x ∈ indices) && similar anchor x)) := by
  induction indices generalizing g with
  | nil => simp
  | cons k rest ih =>
    obtain ⟨fresh,others⟩ := List.nodup_cons.mp distinct
    obtain ⟨cluster,assigned⟩ := ih others (absorb similar anchor g k)
    rw [List.foldl_cons]
    by_cases taken : g.assigned k = true
    · have same : absorb similar anchor g k = g := if_pos taken
      rw [same] at cluster assigned ⊢
      refine ⟨by simp [cluster,taken],fun x => ?_⟩
      rw [assigned]
      by_cases here : x = k
      · simp [here,taken]
      · simp [here]
    · by_cases like : similar anchor k = true
      · have joined : absorb similar anchor g k = ⟨Function.update g.assigned k true,g.cluster ++ [k]⟩ := by
          rw [absorb,if_neg taken,if_pos like]
        rw [joined] at cluster assigned ⊢
        have rest_ : rest.filter (fun x => !Function.update g.assigned k true x && similar anchor x) =
            rest.filter (fun x => !g.assigned x && similar anchor x) := by
          refine List.filter_congr fun x listed => ?_
          have other : x ≠ k := fun same => fresh (same ▸ listed)
          rw [Function.update_of_ne other]
        refine ⟨?_,fun x => ?_⟩
        · rw [cluster,rest_]
          simp [taken,like]
        · rw [assigned]
          by_cases here : x = k
          · simp [here,like]
          · simp [here]
      · have same : absorb similar anchor g k = g := by rw [absorb,if_neg taken,if_neg like]
        rw [same] at cluster assigned ⊢
        refine ⟨by simp [cluster,like],fun x => ?_⟩
        rw [assigned]
        by_cases here : x = k
        · simp [here,like]
        · simp [here]

/-- A pass over all indices takes the similar ones from the unassigned to the cluster. -/
theorem absorb_pass (anchor : Fin n) (g : Growth n) :
    ((List.finRange n).foldl (absorb similar anchor) g).cluster = g.cluster ++ near similar anchor (unassigned g.assigned) ∧
      unassigned ((List.finRange n).foldl (absorb similar anchor) g).assigned = far similar anchor (unassigned g.assigned) := by
  obtain ⟨cluster,assigned⟩ := absorb_loop similar anchor (List.nodup_finRange n) g
  constructor
  · rw [cluster,near,unassigned,List.filter_filter]
    simp only [Bool.and_comm]
  · rw [far,unassigned,unassigned,List.filter_filter]
    refine List.filter_congr fun k _ => ?_
    rw [assigned]
    cases g.assigned k <;> cases similar anchor k <;> simp

/-- With fuel for every member the scan ends with the cluster that the recursion grows. -/
theorem scan_expands {fuel j : Nat} {g : Growth n} (inside : j ≤ g.cluster.length)
    (enough : (g.cluster.length - j) + (unassigned g.assigned).length < fuel) :
    ∃ g', scan similar fuel j g = some g' ∧
      (g'.cluster,unassigned g'.assigned) = expand similar (g.cluster.drop j) g.cluster (unassigned g.assigned) := by
  induction fuel generalizing j g with
  | zero => omega
  | succ fuel ih =>
    rw [scan]
    by_cases more : j < g.cluster.length
    · obtain ⟨cluster,left⟩ := absorb_pass similar g.cluster[j] g
      have moved := length_near_far similar g.cluster[j] (unassigned g.assigned)
      rw [List.getElem?_eq_getElem more,List.drop_eq_getElem_cons more,expand]
      have inside' : j + 1 ≤ ((List.finRange n).foldl (absorb similar g.cluster[j]) g).cluster.length := by
        rw [cluster,List.length_append]
        omega
      obtain ⟨g',ended,same⟩ := ih inside' (by rw [cluster,left,List.length_append]; omega)
      refine ⟨g',ended,?_⟩
      rw [same,cluster,left,List.drop_append_of_le_length (by omega)]
    · rw [List.getElem?_eq_none (not_lt.mp more),List.drop_eq_nil_of_le (not_lt.mp more),expand]
      exact ⟨g,rfl,rfl⟩

/-- The outer loop goes on with the clusters of what is unassigned. -/
theorem visits_cluster {fuel : Nat} (enough : n < fuel) {front rest : List (Fin n)} (whole : List.finRange n = front ++ rest)
    {state : (Fin n → Bool) × List (List (Fin n))} (passed : ∀ x ∈ front, state.1 x = true) :
    ∃ state', rest.foldlM (visit similar fuel) state = some state' ∧ state'.2 = state.2 ++ greedy_cluster similar (unassigned state.1) := by
  induction rest generalizing front state with
  | nil =>
    have done : unassigned state.1 = [] := by
      rw [unassigned,List.filter_eq_nil_iff]
      intro x listed
      rw [whole,List.append_nil] at listed
      simp [passed x listed]
    exact ⟨state,rfl,by rw [done,greedy_cluster,List.append_nil]⟩
  | cons i rest ih =>
    have whole' : List.finRange n = front ++ [i] ++ rest := by rw [whole,List.append_assoc]; rfl
    rw [List.foldlM_cons]
    by_cases taken : state.1 i = true
    · have same : visit similar fuel state i = some state := if_pos taken
      rw [same]
      refine ih whole' fun x listed => ?_
      rcases List.mem_append.mp listed with old | new
      · exact passed x old
      · rw [List.mem_singleton.mp new]
        exact taken
    · have remaining : unassigned state.1 = i :: unassigned (Function.update state.1 i true) := by
        have distinct : (front ++ i :: rest).Nodup := whole ▸ List.nodup_finRange n
        obtain ⟨_,tail,apart⟩ := List.nodup_append.mp distinct
        have ahead : ∀ flags : Fin n → Bool, (∀ x ∈ front, flags x = true) → front.filter (fun k => !flags k) = [] := by
          intro flags marked
          rw [List.filter_eq_nil_iff]
          intro x listed
          simp [marked x listed]
        have after : rest.filter (fun k => !Function.update state.1 i true k) = rest.filter (fun k => !state.1 k) := by
          refine List.filter_congr fun k listed => ?_
          have other : k ≠ i := fun same => (List.nodup_cons.mp tail).1 (same ▸ listed)
          rw [Function.update_of_ne other]
        have marked : ∀ x ∈ front, Function.update state.1 i true x = true := by
          intro x listed
          have other : x ≠ i := apart x listed i List.mem_cons_self
          rw [Function.update_of_ne other]
          exact passed x listed
        rw [unassigned,unassigned,whole,List.filter_append,List.filter_append,ahead _ passed,ahead _ marked,List.nil_append,List.nil_append,
          List.filter_cons_of_pos (by simpa using taken),List.filter_cons_of_neg (by simp),after]
      have counted : (unassigned state.1).length ≤ n := by
        have short := List.length_filter_le (fun k => !state.1 k) (List.finRange n)
        rwa [List.length_finRange] at short
      rw [remaining,List.length_cons] at counted
      have short : ([i].length - 0) + (unassigned (Function.update state.1 i true)).length < fuel := by
        simp only [List.length_singleton]
        omega
      obtain ⟨g,ended,grown⟩ : ∃ g, scan similar fuel 0 ⟨Function.update state.1 i true,[i]⟩ = some g ∧
          (g.cluster,unassigned g.assigned) = expand similar [i] [i] (unassigned (Function.update state.1 i true)) :=
        scan_expands similar (Nat.zero_le _) short
      obtain ⟨cluster,left⟩ := Prod.mk.inj grown
      have visited : visit similar fuel state i = some (g.assigned,state.2 ++ [g.cluster]) := by
        rw [visit,if_neg taken,ended]
        rfl
      rw [visited]
      have marked : ∀ x ∈ front ++ [i], g.assigned x = true := by
        intro x listed
        by_contra open_
        have waits : x ∈ unassigned g.assigned := mem_unassigned.mpr (by simpa using open_)
        rw [left] at waits
        have before := mem_unassigned.mp (expand_left x waits)
        by_cases here : x = i
        · rw [here,Function.update_self] at before
          cases before
        · rw [Function.update_of_ne here] at before
          rcases List.mem_append.mp listed with old | new
          · rw [passed x old] at before
            cases before
          · exact here (List.mem_singleton.mp new)
      obtain ⟨state',done,clusters⟩ : ∃ state', rest.foldlM (visit similar fuel) (g.assigned,state.2 ++ [g.cluster]) = some state' ∧
          state'.2 = state.2 ++ [g.cluster] ++ greedy_cluster similar (unassigned g.assigned) := ih whole' marked
      refine ⟨state',done,?_⟩
      rw [clusters,remaining,greedy_cluster,cluster,left,List.append_assoc]
      rfl

theorem cluster_indices_eq {fuel : Nat} (enough : n < fuel) : cluster_indices similar fuel = some (greedy_cluster similar (List.finRange n)) := by
  have none_ : ∀ x ∈ ([] : List (Fin n)), (fun _ => false : Fin n → Bool) x = true := fun _ listed => absurd listed List.not_mem_nil
  obtain ⟨state',done,clusters⟩ : ∃ state', (List.finRange n).foldlM (visit similar fuel) (fun _ => false,[]) = some state' ∧
      state'.2 = [] ++ greedy_cluster similar (unassigned fun _ => false) := visits_cluster similar enough (List.nil_append _).symm none_
  have all : unassigned (fun _ : Fin n => false) = List.finRange n := by simp [unassigned]
  rw [cluster_indices,done]
  simp [clusters,all]

end indices

/-! ## From indices to facts -/

section map
variable {α β : Type} (similar : α → α → Bool) (f : β → α)

theorem near_map (anchor : β) (items : List β) :
    near similar (f anchor) (items.map f) = (near (fun x y => similar (f x) (f y)) anchor items).map f := List.filter_map

theorem far_map (anchor : β) (items : List β) :
    far similar (f anchor) (items.map f) = (far (fun x y => similar (f x) (f y)) anchor items).map f := List.filter_map

theorem expand_map (anchors cluster unassigned : List β) : expand similar (anchors.map f) (cluster.map f) (unassigned.map f) =
    ((expand (fun x y => similar (f x) (f y)) anchors cluster unassigned).1.map f,
      (expand (fun x y => similar (f x) (f y)) anchors cluster unassigned).2.map f) := by
  fun_induction expand (fun x y => similar (f x) (f y)) anchors cluster unassigned with
  | case1 cluster unassigned => rw [List.map_nil,expand]
  | case2 cluster unassigned anchor rest ih => rw [List.map_cons,expand,near_map,far_map,← List.map_append,← List.map_append,ih]

theorem greedy_cluster_map (items : List β) :
    greedy_cluster similar (items.map f) = (greedy_cluster (fun x y => similar (f x) (f y)) items).map (List.map f) := by
  fun_induction greedy_cluster (fun x y => similar (f x) (f y)) items with
  | case1 => rw [List.map_nil,greedy_cluster,List.map_nil]
  | case2 i rest ih =>
    have grown := expand_map similar f [i] [i] rest
    rw [List.map_singleton] at grown
    rw [List.map_cons,greedy_cluster,grown,ih,List.map_cons]

end map

section facts
variable (similarity : Embedding → Embedding → F32) (threshold : F32) (facts : List Fact)

/-- The similarity of two facts by their indices exceeds the threshold. -/
def exceeds (i k : Fin facts.length) : Bool := linked similarity threshold (facts.get i) (facts.get k)

/-- The clusters of the facts are those of their indices. -/
theorem greedy_cluster_facts : greedy_cluster (linked similarity threshold) facts =
    (greedy_cluster (exceeds similarity threshold facts) (List.finRange facts.length)).map (List.map facts.get) := by
  have mapped := greedy_cluster_map (linked similarity threshold) facts.get (List.finRange facts.length)
  rw [List.map_get_finRange] at mapped
  exact mapped

theorem exceeds_symmetric (symmetric : ∀ a b, similarity a b = similarity b a) (i k : Fin facts.length) :
    exceeds similarity threshold facts i k = exceeds similarity threshold facts k i := by
  unfold exceeds linked
  rw [symmetric]

end facts

section summaries
variable {similarity : Embedding → Embedding → F32} {generator : SummaryGenerator} {embedder : EmbeddingProvider}

theorem cluster_summary_sources {params : ClusterParams} {cluster : List Fact} {s : NewSummary}
    (made : cluster_summary generator embedder params cluster = .ok s) : s.source_fact_ids = cluster.map Fact.id := by
  obtain ⟨_,_,done⟩ := made_bind.mp made
  cases done
  rfl

/-- The sources of the summaries, cluster by cluster. -/
theorem summaries_sources {params : ClusterParams} {clusters : List (List Fact)} {summaries : List NewSummary}
    (made : clusters.mapM (cluster_summary generator embedder params) = .ok summaries) :
    summaries.map NewSummary.source_fact_ids = clusters.map (List.map Fact.id) := by
  induction clusters generalizing summaries with
  | nil =>
    cases made
    rfl
  | cons cluster rest ih =>
    rw [List.mapM_cons] at made
    obtain ⟨s,first,later⟩ := made_bind.mp made
    obtain ⟨others,passed,done⟩ := made_bind.mp later
    cases done
    rw [List.map_cons,List.map_cons,ih passed,cluster_summary_sources first]

/-- No fact goes into the summaries more often than it is listed. -/
theorem compute_clusters_sources {facts : List Fact} {params : ClusterParams} {computed : ClusterComputed}
    (made : compute_clusters similarity generator embedder facts params = .ok computed) :
    (computed.summaries.flatMap NewSummary.source_fact_ids).Subperm (facts.map Fact.id) := by
  unfold compute_clusters at made
  by_cases over_ : facts.length > params.max_facts
  · rw [if_pos over_] at made
    cases made
    exact List.nil_subperm
  · rw [if_neg over_] at made
    obtain ⟨summaries,passed,done⟩ := made_bind.mp made
    cases done
    show (summaries.flatMap NewSummary.source_fact_ids).Subperm (facts.map Fact.id)
    rw [List.flatMap_def,summaries_sources passed,← List.map_flatten]
    have kept : (((greedy_cluster (linked similarity params.cluster_threshold) facts).filter
        fun cluster => !(cluster.length < params.min_cluster_size)).flatten).Sublist
          (greedy_cluster (linked similarity params.cluster_threshold) facts).flatten := List.filter_sublist.flatten
    exact (kept.map Fact.id).subperm.trans ((greedy_cluster_perm _ facts).map Fact.id).subperm

theorem compute_global_sources {cluster_summaries : List NewSummary} {embed_dim : Nat} {now : Time.DateTime} {s : NewSummary}
    (made : compute_global generator embedder cluster_summaries embed_dim now = .ok (some s)) :
    s.source_fact_ids = cluster_summaries.flatMap NewSummary.source_fact_ids := by
  unfold compute_global at made
  by_cases empty : cluster_summaries = []
  · rw [if_pos empty] at made
    cases made
  · rw [if_neg empty] at made
    obtain ⟨_,_,done⟩ := made_bind.mp made
    cases done
    rfl

end summaries

/-- The loop ends with a partition of the indices into the components of the graph of
    similarities above the threshold. No fact is a source of two cluster summaries, or twice of
    the global one. -/
theorem clusters_are_components (similarity : Embedding → Embedding → F32) (symmetric : ∀ a b, similarity a b = similarity b a)
    (facts : List Fact) (params : ClusterParams) :
    (∃ clusters, (∀ fuel, facts.length < fuel → cluster_indices (exceeds similarity params.cluster_threshold facts) fuel = some clusters) ∧
      greedy_cluster (linked similarity params.cluster_threshold) facts = clusters.map (List.map facts.get) ∧
      clusters.flatten.Perm (List.finRange facts.length) ∧ (∀ C ∈ clusters, C ≠ []) ∧
      ∀ C ∈ clusters, ∀ i ∈ C, ∀ k,
        k ∈ C ↔ Connected (exceeds similarity params.cluster_threshold facts) (List.finRange facts.length) i k) ∧
    ∀ (generator : SummaryGenerator) (embedder : EmbeddingProvider) (computed : ClusterComputed),
      compute_clusters similarity generator embedder facts params = .ok computed → (facts.map Fact.id).Nodup →
      computed.summaries.Pairwise (fun s s' => s.source_fact_ids.Disjoint s'.source_fact_ids) ∧
      (∀ s ∈ computed.summaries, s.source_fact_ids.Nodup) ∧
      ∀ embed_dim now s, compute_global generator embedder computed.summaries embed_dim now = .ok (some s) → s.source_fact_ids.Nodup := by
  constructor
  · refine ⟨greedy_cluster (exceeds similarity params.cluster_threshold facts) (List.finRange facts.length),
      fun fuel enough => cluster_indices_eq _ enough,greedy_cluster_facts _ _ _,greedy_cluster_perm _ _,?_,?_⟩
    · exact greedy_cluster_ne_nil
    · intro C listed i inside k
      exact greedy_cluster_components (exceeds_symmetric similarity params.cluster_threshold facts symmetric) (List.nodup_finRange _) C listed i
        inside k (List.mem_finRange k)
  · intro generator embedder computed made distinct
    have once : (computed.summaries.flatMap NewSummary.source_fact_ids).Nodup := by
      obtain ⟨listed,same,part⟩ := compute_clusters_sources made
      exact same.nodup_iff.mp (distinct.sublist part)
    obtain ⟨each,apart⟩ := List.nodup_flatMap.mp once
    refine ⟨apart,each,fun embed_dim now s global => ?_⟩
    rw [compute_global_sources global]
    exact once

/-- Facts that are all alike form one cluster. -/
theorem clusters_are_components_sample : ∃ clusters : List (List (Fin Sample.engine.storage.facts.rows.length)),
    clusters.flatten.Perm (List.finRange _) ∧ ∀ C ∈ clusters, ∀ i ∈ C, ∀ k, k ∈ C := by
  obtain ⟨⟨clusters,_,_,whole,_,components⟩,_⟩ := clusters_are_components (fun _ _ => 0x3F800000) (fun _ _ => rfl)
    Sample.engine.storage.facts.rows ⟨1,2,0x3F000000,100,Sample.moment⟩
  refine ⟨clusters,whole,fun C listed i inside k => (components C listed i inside k).mpr (.single ⟨List.mem_finRange i,List.mem_finRange k,?_⟩)⟩
  show (F32.datum 0x3F000000).le (F32.datum 0x3F800000) && !(F32.datum 0x3F800000).le (F32.datum 0x3F000000)
  decide +kernel

end MemoryEngine.Fusion
