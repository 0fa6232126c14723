import MemoryEngine.DefaultDreamCycle
import Mathlib.Logic.Relation

/-! Density-connected clusters. While a cluster grows, the neighbours of its core points
are queued, and what was queued ends up in some cluster; with symmetric neighbours no core
point of another cluster can be among them. -/

namespace MemoryEngine.Dbscan

section density
variable (neighbours : Nat → List Nat) (min_pts : Nat)

/-- Two core points that are neighbours. -/
def Adjacent (p q : Nat) : Prop := Core neighbours min_pts p ∧ Core neighbours min_pts q ∧ q ∈ neighbours p

/-- A chain of neighbouring core points. -/
def Chain : Nat → Nat → Prop := Relation.ReflTransGen (Adjacent neighbours min_pts)

/-- The clusters found so far are complete. -/
structure Settled (labels : Nat → Label) (count : Nat) : Prop where
  below : Below (labels,count)
  noise {p : Nat} : labels p = .noise → ¬ Core neighbours min_pts p
  member {p id : Nat} : labels p = .cluster id →
    Core neighbours min_pts p ∨ ∃ r, Core neighbours min_pts r ∧ labels r = .cluster id ∧ p ∈ neighbours r
  chained {p q id : Nat} : Core neighbours min_pts p → Core neighbours min_pts q → labels p = .cluster id → labels q = .cluster id →
    Chain neighbours min_pts p q
  covered {p q id : Nat} : Core neighbours min_pts p → labels p = .cluster id → q ∈ neighbours p → ∃ other, labels q = .cluster other
  together {p q id : Nat} : Adjacent neighbours min_pts p q → labels p = .cluster id → labels q = .cluster id

/-- The cluster that grows from a core point, over the labels there were before. -/
structure Growing (id p : Nat) (before : Nat → Label) (frontier : Frontier) (labels : Nat → Label) : Prop where
  joins : Joins id before labels
  root : labels p = .cluster id
  noise {x : Nat} : labels x = .noise → ¬ Core neighbours min_pts x
  chained {x : Nat} : Core neighbours min_pts x → labels x = .cluster id → Chain neighbours min_pts p x
  member {x : Nat} : labels x = .cluster id →
    Core neighbours min_pts x ∨ ∃ r, Core neighbours min_pts r ∧ labels r = .cluster id ∧ x ∈ neighbours r
  seeds {s : Nat} : s ∈ frontier.seeds → ∃ r, Core neighbours min_pts r ∧ labels r = .cluster id ∧ s ∈ neighbours r
  queued {r s : Nat} : Core neighbours min_pts r → labels r = .cluster id → s ∈ neighbours r → frontier.queued s = true
  waits {s : Nat} : frontier.queued s = true → s ∈ frontier.seeds ∨ ∃ other, labels s = .cluster other

end density

variable {neighbours : Nat → List Nat} {min_pts : Nat}

theorem Chain.symm (symmetric : ∀ p q, q ∈ neighbours p → p ∈ neighbours q) {p q : Nat} (chain : Chain neighbours min_pts p q) :
    Chain neighbours min_pts q p := by
  induction chain with
  | refl => exact .refl
  | tail _ step ih =>
    obtain ⟨left,right,near⟩ := step
    exact Relation.ReflTransGen.head ⟨right,left,symmetric _ _ near⟩ ih

/-! ## The seeds -/

theorem queued_push (frontier : Frontier) (point s : Nat) : (frontier.push point).queued s = true ↔ s = point ∨ frontier.queued s = true := by
  unfold Frontier.push
  by_cases present : frontier.queued point = true
  · rw [if_pos present]
    constructor
    · exact .inr
    · rintro (rfl | before)
      · exact present
      · exact before
  · rw [if_neg present]
    by_cases here : s = point
    · subst here
      simp
    · simp [here]

theorem mem_push (frontier : Frontier) (point s : Nat) :
    s ∈ (frontier.push point).seeds ↔ s ∈ frontier.seeds ∨ s = point ∧ frontier.queued point = false := by
  unfold Frontier.push
  by_cases present : frontier.queued point = true
  · simp [present]
  · simp [present]

theorem queued_pushes (points : List Nat) (frontier : Frontier) (s : Nat) :
    (points.foldl Frontier.push frontier).queued s = true ↔ s ∈ points ∨ frontier.queued s = true := by
  induction points generalizing frontier with
  | nil => simp
  | cons point rest ih =>
    rw [List.foldl_cons,ih,queued_push,List.mem_cons]
    tauto

/-- The seeds after a push are those before and points that were new. -/
theorem mem_pushes (points : List Nat) (frontier : Frontier) (s : Nat) :
    s ∈ (points.foldl Frontier.push frontier).seeds ↔ s ∈ frontier.seeds ∨ s ∈ points ∧ frontier.queued s = false := by
  induction points generalizing frontier with
  | nil => simp
  | cons point rest ih =>
    rw [List.foldl_cons,ih,mem_push,List.mem_cons]
    have queued := queued_push frontier point s
    by_cases here : s = point
    · subst here
      cases before : frontier.queued s <;> simp_all
    · cases before : frontier.queued s <;> simp_all

/-! ## One seed -/

theorem Joins.keeps {id : Nat} {labels labels' : Nat → Label} (joins : Joins id labels labels') {point other : Nat}
    (labelled : labels point = .cluster other) : labels' point = .cluster other := by
  rcases joins point with same | ⟨_,free⟩
  · rw [same,labelled]
  · exact absurd labelled (free other)

namespace Growing
variable {id p : Nat} {before labels : Nat → Label} {q : Nat} {rest : List Nat} {queued : Nat → Bool}

/-- A seed that has a cluster already is passed over. -/
theorem pass (growing : Growing neighbours min_pts id p before ⟨q :: rest,queued⟩ labels) {other : Nat} (labelled : labels q = .cluster other) :
    Growing neighbours min_pts id p before ⟨rest,queued⟩ labels := by
  refine { growing with seeds := fun waiting => growing.seeds (List.mem_cons_of_mem _ waiting), waits := fun put => ?_ }
  rcases growing.waits put with listed | settled
  · rcases List.mem_cons.mp listed with rfl | below
    · exact .inr ⟨other,labelled⟩
    · exact .inl below
  · exact .inr settled

/-- A seed without a cluster joins the one that grows, and brings its neighbours along if it
    is a core point. -/
theorem join (growing : Growing neighbours min_pts id p before ⟨q :: rest,queued⟩ labels) (free : ∀ other, labels q ≠ .cluster other)
    {frontier : Frontier} (stays : ∀ s ∈ frontier.seeds, s ∈ rest ∨ Core neighbours min_pts q ∧ s ∈ neighbours q)
    (put : ∀ s, frontier.queued s = true ↔ queued s = true ∨ Core neighbours min_pts q ∧ s ∈ neighbours q)
    (waits : ∀ s, frontier.queued s = true → s ∈ frontier.seeds ∨ queued s = true ∧ s ∉ rest) :
    Growing neighbours min_pts id p before frontier (Function.update labels q (.cluster id)) := by
  have joined : Joins id labels (Function.update labels q (.cluster id)) := .update free
  have here : Function.update labels q (.cluster id) q = .cluster id := Function.update_self _ _ _
  have else_ {x : Nat} (other : x ≠ q) : Function.update labels q (.cluster id) x = labels x := Function.update_of_ne other _ _
  obtain ⟨r,core,labelled,near⟩ := growing.seeds (s := q) List.mem_cons_self
  have chain : Core neighbours min_pts q → Chain neighbours min_pts p q := fun dense =>
    (growing.chained core labelled).tail ⟨core,dense,near⟩
  constructor
  case joins => exact growing.joins.trans joined
  case root => exact joined.keeps growing.root
  case noise =>
    intro x quiet
    by_cases at_ : x = q
    · rw [at_,here] at quiet
      cases quiet
    · exact growing.noise ((else_ at_).symm.trans quiet)
  case chained =>
    intro x dense inside
    by_cases at_ : x = q
    · subst at_
      exact chain dense
    · exact growing.chained dense ((else_ at_).symm.trans inside)
  case member =>
    intro x inside
    by_cases at_ : x = q
    · subst at_
      exact .inr ⟨r,core,joined.keeps labelled,near⟩
    · rcases growing.member ((else_ at_).symm.trans inside) with dense | ⟨r',core',labelled',near'⟩
      · exact .inl dense
      · exact .inr ⟨r',core',joined.keeps labelled',near'⟩
  case seeds =>
    intro s waiting
    rcases stays s waiting with old | ⟨dense,near'⟩
    · obtain ⟨r',core',labelled',near'⟩ := growing.seeds (s := s) (List.mem_cons_of_mem _ old)
      exact ⟨r',core',joined.keeps labelled',near'⟩
    · exact ⟨q,dense,here,near'⟩
  case queued =>
    intro r' s core' inside near'
    by_cases at_ : r' = q
    · subst at_
      exact (put s).mpr (.inr ⟨core',near'⟩)
    · exact (put s).mpr (.inl (growing.queued core' ((else_ at_).symm.trans inside) near'))
  case waits =>
    intro s queued_
    rcases waits s queued_ with waiting | ⟨old,gone⟩
    · exact .inl waiting
    · rcases growing.waits old with listed | ⟨other,settled⟩
      · rcases List.mem_cons.mp listed with rfl | below
        · exact .inr ⟨id,here⟩
        · exact absurd below gone
      · exact .inr ⟨other,joined.keeps settled⟩

/-- The loop over the seeds comes to an end, with every seed taken. -/
theorem expand {bound : Nat} (inside : ∀ p, ∀ point ∈ neighbours p, point < bound) {fuel : Nat} {frontier : Frontier}
    (enough : frontier.left bound ≤ fuel) (growing : Growing neighbours min_pts id p before frontier labels) :
    ∃ queued, Growing neighbours min_pts id p before ⟨[],queued⟩ (Dbscan.expand neighbours min_pts id fuel frontier labels) := by
  induction fuel generalizing frontier labels with
  | zero =>
    obtain ⟨seeds,queued⟩ := frontier
    cases seeds with
    | nil => exact ⟨queued,growing⟩
    | cons q rest =>
      simp only [Frontier.left,List.length_cons] at enough
      omega
  | succ fuel ih =>
    obtain ⟨seeds,queued⟩ := frontier
    cases seeds with
    | nil => exact ⟨queued,growing⟩
    | cons q rest =>
      have later : (⟨rest,queued⟩ : Frontier).left bound ≤ fuel := by
        simp only [Frontier.left,List.length_cons] at enough ⊢
        omega
      -- a seed that brings no neighbours along leaves the frontier as it is
      have alone (sparse : ¬ Core neighbours min_pts q) (free : ∀ other, labels q ≠ .cluster other) :
          Growing neighbours min_pts id p before ⟨rest,queued⟩ (Function.update labels q (.cluster id)) := by
        refine growing.join free (fun s waiting => .inl waiting) (fun s => ?_) (fun s put => ?_)
        · simp [sparse]
        · by_cases waiting : s ∈ rest
          · exact .inl waiting
          · exact .inr ⟨put,waiting⟩
      rw [Dbscan.expand]
      dsimp only
      by_cases quiet : labels q = .noise
      · have border_ : border id q labels = Function.update labels q (.cluster id) := if_pos quiet
        have visited : Function.update labels q (.cluster id) q ≠ .unvisited := by simp
        rw [border_,if_pos visited]
        exact ih later (alone (growing.noise quiet) fun other same => by rw [quiet] at same; cases same)
      · have border_ : border id q labels = labels := if_neg quiet
        rw [border_]
        cases label : labels q with
        | noise => exact absurd label quiet
        | cluster other =>
          rw [if_pos (by simp)]
          exact ih later (growing.pass label)
        | unvisited =>
          have free : ∀ other, labels q ≠ .cluster other := fun other same => by rw [label] at same; cases same
          rw [if_neg (by simp)]
          by_cases dense : Core neighbours min_pts q
          · rw [if_pos dense]
            refine ih (by rw [left_pushes (inside q)]; exact later) (growing.join free ?_ ?_ ?_)
            · intro s waiting
              rcases (mem_pushes _ _ s).mp waiting with old | ⟨near,_⟩
              · exact .inl old
              · exact .inr ⟨dense,near⟩
            · intro s
              rw [queued_pushes]
              tauto
            · intro s put
              rw [queued_pushes] at put
              rw [mem_pushes]
              cases old : queued s <;> simp_all
              tauto
          · rw [if_neg dense]
            exact ih later (alone dense free)

end Growing

/-! ## One point of the outer loop -/

section visits
variable {labels : Nat → Label} {count p : Nat}

/-- A cluster begins with its first point and the neighbours of that. -/
theorem Settled.start (settled : Settled neighbours min_pts labels count) (dense : Core neighbours min_pts p) (new : labels p = .unvisited) :
    Growing neighbours min_pts count p labels (start neighbours p) (Function.update labels p (.cluster count)) := by
  have here : Function.update labels p (.cluster count) p = .cluster count := Function.update_self _ _ _
  have only {x : Nat} (inside : Function.update labels p (.cluster count) x = .cluster count) : x = p := by
    by_contra other
    rw [Function.update_of_ne other] at inside
    exact absurd (settled.below x count inside) (lt_irrefl _)
  constructor
  case joins => exact .update fun other same => by rw [new] at same; cases same
  case root => exact here
  case noise =>
    intro x quiet
    by_cases at_ : x = p
    · rw [at_,here] at quiet
      cases quiet
    · rw [Function.update_of_ne at_] at quiet
      exact settled.noise quiet
  case chained =>
    intro x _ inside
    rw [only inside]
    exact .refl
  case member =>
    intro x inside
    rw [only inside]
    exact .inl dense
  case seeds => exact fun near => ⟨p,dense,here,near⟩
  case queued =>
    intro r s _ inside near
    rw [only inside] at near
    exact decide_eq_true (.inr near)
  case waits =>
    intro s put
    rcases of_decide_eq_true put with rfl | near
    · exact .inr ⟨count,here⟩
    · exact .inl near

/-- A cluster whose seeds are all taken is complete. -/
theorem Growing.settled (symmetric : ∀ p q, q ∈ neighbours p → p ∈ neighbours q) {before : Nat → Label} {queued : Nat → Bool}
    (settled : Settled neighbours min_pts before count) (growing : Growing neighbours min_pts count p before ⟨[],queued⟩ labels) :
    Settled neighbours min_pts labels (count + 1) := by
  have old {x id : Nat} (labelled : labels x = .cluster id) (other : id ≠ count) : before x = .cluster id := by
    rcases growing.joins x with same | ⟨joined,_⟩
    · exact same.symm.trans labelled
    · exact absurd (Label.cluster.inj (labelled.symm.trans joined)) other
  have covered {x y id : Nat} (dense : Core neighbours min_pts x) (labelled : labels x = .cluster id) (near : y ∈ neighbours x) :
      ∃ other, labels y = .cluster other := by
    by_cases grown : id = count
    · subst grown
      rcases growing.waits (growing.queued dense labelled near) with waiting | done
      · exact absurd waiting List.not_mem_nil
      · exact done
    · obtain ⟨other,labelled'⟩ := settled.covered dense (old labelled grown) near
      exact ⟨other,growing.joins.keeps labelled'⟩
  constructor
  case below =>
    intro x id labelled
    by_cases grown : id = count
    · show id < count + 1
      omega
    · exact Nat.lt_succ_of_lt (settled.below x id (old labelled grown))
  case noise => exact growing.noise
  case member =>
    intro x id labelled
    by_cases grown : id = count
    · subst grown
      exact growing.member labelled
    · rcases settled.member (old labelled grown) with dense | ⟨r,dense,labelled',near⟩
      · exact .inl dense
      · exact .inr ⟨r,dense,growing.joins.keeps labelled',near⟩
  case chained =>
    intro x y id left right first second
    by_cases grown : id = count
    · subst grown
      exact (Chain.symm symmetric (growing.chained left first)).trans (growing.chained right second)
    · exact settled.chained left right (old first grown) (old second grown)
  case covered => exact covered
  case together =>
    rintro x y id ⟨left,right,near⟩ labelled
    by_cases grown : id = count
    · subst grown
      obtain ⟨other,labelled'⟩ := covered left labelled near
      by_cases same : other = id
      · rw [labelled',same]
      · -- a core point of an older cluster would have its neighbour in that one
        have there := settled.together ⟨right,left,symmetric x y near⟩ (old labelled' same)
        exact absurd (Label.cluster.inj ((growing.joins.keeps there).symm.trans labelled)) same
    · exact growing.joins.keeps (settled.together ⟨left,right,near⟩ (old labelled grown))

/-- A point that is marked as noise leaves the clusters as they are. -/
theorem Settled.quiet (settled : Settled neighbours min_pts labels count) (sparse : ¬ Core neighbours min_pts p) (new : labels p = .unvisited) :
    Settled neighbours min_pts (Function.update labels p .noise) count := by
  have same {x : Nat} (other : x ≠ p) : Function.update labels p .noise x = labels x := Function.update_of_ne other _ _
  have old {x id : Nat} (labelled : Function.update labels p .noise x = .cluster id) : labels x = .cluster id := by
    by_cases at_ : x = p
    · rw [at_] at labelled
      simp at labelled
    · exact (same at_).symm.trans labelled
  have keeps {x id : Nat} (labelled : labels x = .cluster id) : Function.update labels p .noise x = .cluster id := by
    have other : x ≠ p := by
      rintro rfl
      rw [new] at labelled
      cases labelled
    exact (same other).trans labelled
  constructor
  case below => exact fun x id labelled => settled.below x id (old labelled)
  case noise =>
    intro x quiet
    by_cases at_ : x = p
    · rw [at_]
      exact sparse
    · exact settled.noise ((same at_).symm.trans quiet)
  case member =>
    intro x id labelled
    rcases settled.member (old labelled) with dense | ⟨r,dense,labelled',near⟩
    · exact .inl dense
    · exact .inr ⟨r,dense,keeps labelled',near⟩
  case chained => exact fun left right first second => settled.chained left right (old first) (old second)
  case covered =>
    intro x y id dense labelled near
    obtain ⟨other,labelled'⟩ := settled.covered dense (old labelled) near
    exact ⟨other,keeps labelled'⟩
  case together => exact fun adjacent labelled => keeps (settled.together adjacent (old labelled))

theorem Settled.visit {bound : Nat} (symmetric : ∀ p q, q ∈ neighbours p → p ∈ neighbours q) (inside : ∀ p, ∀ point ∈ neighbours p, point < bound)
    (distinct : ∀ p, (neighbours p).Nodup) {state : (Nat → Label) × Nat} (settled : Settled neighbours min_pts state.1 state.2) (p : Nat) :
    Settled neighbours min_pts (visit neighbours min_pts bound state p).1 (visit neighbours min_pts bound state p).2 ∧
      (visit neighbours min_pts bound state p).1 p ≠ .unvisited ∧
      ∀ x, state.1 x ≠ .unvisited → (visit neighbours min_pts bound state p).1 x ≠ .unvisited := by
  unfold Dbscan.visit
  by_cases new : state.1 p = .unvisited
  · rw [if_neg (not_not.mpr new)]
    by_cases dense : Core neighbours min_pts p
    · rw [if_neg (not_not.mpr dense)]
      obtain ⟨queued,grown⟩ := (settled.start dense new).expand inside (left_start (inside p) (distinct p))
      refine ⟨grown.settled symmetric settled,?_,fun x visited => ?_⟩
      · dsimp only
        rw [grown.root]
        simp
      · dsimp only
        rcases grown.joins x with same | ⟨joined,_⟩
        · rw [same]
          exact visited
        · rw [joined]
          simp
    · rw [if_pos dense]
      refine ⟨settled.quiet dense new,by simp,fun x visited => ?_⟩
      by_cases at_ : x = p
      · simp [at_]
      · show Function.update state.1 p .noise x ≠ .unvisited
        rw [Function.update_of_ne at_]
        exact visited
  · rw [if_pos new]
    exact ⟨settled,new,fun _ visited => visited⟩

end visits

section run
variable {bound : Nat} (symmetric : ∀ p q, q ∈ neighbours p → p ∈ neighbours q) (inside : ∀ p, ∀ point ∈ neighbours p, point < bound)
  (distinct : ∀ p, (neighbours p).Nodup)
include symmetric inside distinct

theorem settled_visits (points : List Nat) {state : (Nat → Label) × Nat} (settled : Settled neighbours min_pts state.1 state.2) :
    Settled neighbours min_pts (points.foldl (visit neighbours min_pts bound) state).1 (points.foldl (visit neighbours min_pts bound) state).2 ∧
      (∀ p ∈ points, (points.foldl (visit neighbours min_pts bound) state).1 p ≠ .unvisited) ∧
      ∀ x, state.1 x ≠ .unvisited → (points.foldl (visit neighbours min_pts bound) state).1 x ≠ .unvisited := by
  induction points generalizing state with
  | nil => exact ⟨settled,fun _ listed => absurd listed List.not_mem_nil,fun _ visited => visited⟩
  | cons p rest ih =>
    obtain ⟨after,marked,keeps⟩ := settled.visit symmetric inside distinct p
    obtain ⟨last,visited,stays⟩ := ih after
    refine ⟨last,fun x listed => ?_,fun x before => stays x (keeps x before)⟩
    rcases List.mem_cons.mp listed with rfl | below
    · exact stays x marked
    · exact visited x below

/-- Every cluster is complete in the end and every point was visited. -/
theorem settled_label : Settled neighbours min_pts (label neighbours min_pts bound).1 (label neighbours min_pts bound).2 ∧
    ∀ p < bound, (label neighbours min_pts bound).1 p ≠ .unvisited := by
  have empty : Settled neighbours min_pts ((fun _ => .unvisited,0) : (Nat → Label) × Nat).1 0 := by
    constructor
    case below => exact fun _ _ labelled => by cases labelled
    all_goals intros; simp_all
  obtain ⟨settled,visited,_⟩ := settled_visits symmetric inside distinct (List.range bound) empty
  exact ⟨settled,fun p below => visited p (List.mem_range.mpr below)⟩

end run

/-- More fuel makes no difference to the labels. -/
theorem label_fuel {bound fuel : Nat} (inside : ∀ p, ∀ point ∈ neighbours p, point < bound) (distinct : ∀ p, (neighbours p).Nodup) (enough : bound ≤ fuel) :
    (List.range bound).foldl (visit neighbours min_pts fuel) (fun _ => .unvisited,0) = label neighbours min_pts bound := by
  obtain ⟨extra,rfl⟩ := Nat.exists_eq_add_of_le enough
  have same : visit neighbours min_pts (bound + extra) = visit neighbours min_pts bound := by
    funext state p
    rw [visit,visit,expand_start inside (distinct p)]
  rw [same,label]

section items
variable {α : Type} {labels : Nat → Label} {items : List α}

/-- An item is in the cluster that its label names. -/
theorem mem_members (distinct : items.Nodup) {i : Nat} {item : α} (here : items[i]? = some item) (id : Nat) :
    item ∈ members labels items id ↔ labels i = .cluster id := by
  constructor
  · intro member
    obtain ⟨⟨x,j⟩,chosen,rfl⟩ := List.mem_map.mp member
    obtain ⟨listed,labelled⟩ := List.mem_filter.mp chosen
    obtain ⟨inside,there⟩ := List.mem_zipIdx' listed
    obtain ⟨inside',here'⟩ := List.getElem?_eq_some_iff.mp here
    obtain rfl : i = j := (List.Nodup.getElem_inj_iff distinct).mp (here'.trans there)
    exact of_decide_eq_true labelled
  · intro labelled
    obtain ⟨inside,here'⟩ := List.getElem?_eq_some_iff.mp here
    refine List.mem_map.mpr ⟨(item,i),List.mem_filter.mpr ⟨?_,decide_eq_true labelled⟩,rfl⟩
    exact List.mk_mem_zipIdx_iff_getElem?.mpr here

theorem getElem_clusters {count k : Nat} {C : List α} :
    ((List.range count).map (members labels items))[k]? = some C ↔ k < count ∧ C = members labels items k := by
  by_cases inside : k < count
  · simp [inside,eq_comm]
  · simp [inside]

/-- Being in the cluster of one number is being labelled with it. -/
theorem in_cluster_iff {count : Nat} (below : Below (labels,count)) (distinct : items.Nodup) {i : Nat} {item : α} (here : items[i]? = some item) (k : Nat) :
    (∃ C, ((List.range count).map (members labels items))[k]? = some C ∧ item ∈ C) ↔ labels i = .cluster k := by
  constructor
  · rintro ⟨C,at_,member⟩
    obtain ⟨_,rfl⟩ := getElem_clusters.mp at_
    exact (mem_members distinct here k).mp member
  · intro labelled
    exact ⟨_,getElem_clusters.mpr ⟨below i k labelled,rfl⟩,(mem_members distinct here k).mpr labelled⟩

theorem mem_clusters {count : Nat} {C : List α} :
    C ∈ (List.range count).map (members labels items) ↔ ∃ k < count, C = members labels items k := by
  simp [eq_comm]

theorem clusters_disjoint (count : Nat) (distinct : items.Nodup) :
    ((List.range count).map (members labels items)).Pairwise List.Disjoint := by
  rw [List.pairwise_map]
  exact List.nodup_range.imp fun apart => members_disjoint distinct apart

section settled
variable {count : Nat} (settled : Settled neighbours min_pts labels count) (distinct : items.Nodup)
include settled distinct

theorem core_in_one (visited : ∀ p < items.length, labels p ≠ .unvisited) {i : Nat} {item : α} (here : items[i]? = some item)
    (dense : Core neighbours min_pts i) : ∃! k : Nat, ∃ C, ((List.range count).map (members labels items))[k]? = some C ∧ item ∈ C := by
  obtain ⟨inside,_⟩ := List.getElem?_eq_some_iff.mp here
  cases label : labels i with
  | unvisited => exact absurd label (visited i inside)
  | noise => exact absurd dense (settled.noise label)
  | cluster k =>
    refine ⟨k,(in_cluster_iff settled.below distinct here k).mpr label,fun k' other => ?_⟩
    exact Label.cluster.inj (((in_cluster_iff settled.below distinct here k').mp other).symm.trans label)

theorem together_iff (visited : ∀ p < items.length, labels p ≠ .unvisited) {i j : Nat} {item item' : α} (here : items[i]? = some item)
    (there : items[j]? = some item') (left : Core neighbours min_pts i) (right : Core neighbours min_pts j) :
    (∃ C ∈ (List.range count).map (members labels items), item ∈ C ∧ item' ∈ C) ↔ Chain neighbours min_pts i j := by
  constructor
  · rintro ⟨C,listed,first,second⟩
    obtain ⟨k,_,rfl⟩ := mem_clusters.mp listed
    exact settled.chained left right ((mem_members distinct here k).mp first) ((mem_members distinct there k).mp second)
  · intro chain
    obtain ⟨inside,_⟩ := List.getElem?_eq_some_iff.mp here
    cases label : labels i with
    | unvisited => exact absurd label (visited i inside)
    | noise => exact absurd left (settled.noise label)
    | cluster k =>
      have last : labels j = .cluster k := by
        clear there right
        induction chain with
        | refl => exact label
        | tail _ step ih => exact settled.together step ih
      exact ⟨_,mem_clusters.mpr ⟨k,settled.below i k label,rfl⟩,(mem_members distinct here k).mpr label,(mem_members distinct there k).mpr last⟩

theorem members_dense {C : List α} (listed : C ∈ (List.range count).map (members labels items)) {item : α} (member : item ∈ C)
    (inside : ∀ p q, q ∈ neighbours p → p < items.length) :
    ∃ i : Nat, items[i]? = some item ∧ (Core neighbours min_pts i ∨
      ∃ (j : Nat) (other : α), items[j]? = some other ∧ other ∈ C ∧ Core neighbours min_pts j ∧ i ∈ neighbours j) := by
  obtain ⟨k,_,rfl⟩ := mem_clusters.mp listed
  obtain ⟨i,here⟩ := List.mem_iff_getElem?.mp ((members_sublist k).subset member)
  refine ⟨i,here,?_⟩
  rcases settled.member ((mem_members distinct here k).mp member) with dense | ⟨r,dense,labelled,near⟩
  · exact .inl dense
  · have within := inside r i near
    have there : items[r]? = some items[r] := List.getElem?_eq_getElem within
    exact .inr ⟨r,_,there,(mem_members distinct there k).mpr labelled,dense,near⟩

theorem noise_iff (visited : ∀ p < items.length, labels p ≠ .unvisited) (inside : ∀ p q, q ∈ neighbours p → p < items.length)
    {i : Nat} {item : α} (here : items[i]? = some item) :
    (∀ C ∈ (List.range count).map (members labels items), item ∉ C) ↔
      ¬ Core neighbours min_pts i ∧ ∀ j, Core neighbours min_pts j → i ∉ neighbours j := by
  obtain ⟨present,_⟩ := List.getElem?_eq_some_iff.mp here
  have free : (∀ C ∈ (List.range count).map (members labels items), item ∉ C) ↔ ∀ k, labels i ≠ .cluster k := by
    constructor
    · intro away k labelled
      exact away _ (mem_clusters.mpr ⟨k,settled.below i k labelled,rfl⟩) ((mem_members distinct here k).mpr labelled)
    · intro away C listed member
      obtain ⟨k,_,rfl⟩ := mem_clusters.mp listed
      exact away k ((mem_members distinct here k).mp member)
  rw [free]
  constructor
  · intro away
    have quiet : labels i = .noise := by
      cases label : labels i with
      | unvisited => exact absurd label (visited i present)
      | noise => rfl
      | cluster k => exact absurd label (away k)
    refine ⟨settled.noise quiet,fun j dense near => ?_⟩
    have labelled : ∃ k, labels j = .cluster k := by
      cases label : labels j with
      | unvisited => exact absurd label (visited j (inside j i near))
      | noise => exact absurd dense (settled.noise label)
      | cluster k => exact ⟨k,rfl⟩
    obtain ⟨k,labelled⟩ := labelled
    obtain ⟨other,covered⟩ := settled.covered dense labelled near
    exact away other covered
  · rintro ⟨sparse,apart⟩ k labelled
    rcases settled.member labelled with dense | ⟨r,dense,_,near⟩
    · exact sparse dense
    · exact apart r dense near

end settled

end items

end MemoryEngine.Dbscan

namespace MemoryEngine
open Dbscan

section clusters
variable {cosine_similarity : Embedding → Embedding → F32} {points : List (FactId × Embedding)} {eps : F32} {min_pts : Nat}

theorem neighbours_inside (p : Nat) : ∀ point ∈ neighbours cosine_similarity points eps p, point < points.length := by
  intro point listed
  exact List.mem_range.mp (List.mem_filter.mp listed).1

theorem neighbours_nodup (p : Nat) : (neighbours cosine_similarity points eps p).Nodup := List.nodup_range.filter _

/-- Only points have neighbours. -/
theorem neighbours_of (p : Nat) {q : Nat} (near : q ∈ neighbours cosine_similarity points eps p) : p < points.length := by
  obtain ⟨_,close⟩ := List.mem_filter.mp near
  simp only [Bool.and_eq_true] at close
  unfold similar at close
  by_contra outside
  rw [List.getElem?_eq_none (not_lt.mp outside)] at close
  exact absurd close.2 (by simp)

/-- A symmetric similarity makes the neighbours symmetric. -/
theorem neighbours_symmetric (symmetric : ∀ a b, cosine_similarity a b = cosine_similarity b a) (p q : Nat)
    (near : q ∈ neighbours cosine_similarity points eps p) : p ∈ neighbours cosine_similarity points eps q := by
  have inside := neighbours_of p near
  obtain ⟨_,close⟩ := List.mem_filter.mp near
  refine List.mem_filter.mpr ⟨List.mem_range.mpr inside,?_⟩
  simp only [Bool.and_eq_true,decide_eq_true_eq] at close ⊢
  refine ⟨fun same => close.1 same.symm,?_⟩
  have both := close.2
  unfold similar at both ⊢
  cases left : points[p]? with
  | none => rw [left] at both; simp at both
  | some a =>
    cases right : points[q]? with
    | none => rw [left,right] at both; simp at both
    | some b =>
      rw [left,right] at both
      simpa only [symmetric b.2 a.2] using both

/-- The clusters are those that the labels name. -/
theorem dbscan_eq (positive : 1 ≤ min_pts) (bounded : points.length ≤ MAX_DBSCAN_POINTS) :
    dbscan cosine_similarity points eps min_pts =
      (List.range (label (neighbours cosine_similarity points eps) min_pts points.length).2).map
        (members (label (neighbours cosine_similarity points eps) min_pts points.length).1 (points.map Prod.fst)) := by
  unfold dbscan
  by_cases empty : points.length = 0
  · rw [if_pos (.inl empty),empty]
    rfl
  · rw [if_neg (by omega),if_neg (by omega)]

variable (cosine_similarity points eps min_pts) in
/-- Density-connected clusters: with symmetric neighbours the clusters are disjoint, each core
    point is in exactly one, chains of neighbouring core points decide which are together, the
    other members are neighbours of a core point of theirs, and the rest is noise. -/
theorem dbscan_clusters (bounded : points.length ≤ MAX_DBSCAN_POINTS) (distinct : (points.map Prod.fst).Nodup) (positive : 1 ≤ min_pts)
    (symmetric : ∀ p q, q ∈ neighbours cosine_similarity points eps p → p ∈ neighbours cosine_similarity points eps q) :
    (∀ fuel, points.length ≤ fuel →
      (List.range points.length).foldl (visit (neighbours cosine_similarity points eps) min_pts fuel) (fun _ => .unvisited,0) =
        label (neighbours cosine_similarity points eps) min_pts points.length) ∧
    (dbscan cosine_similarity points eps min_pts).Pairwise List.Disjoint ∧
    (∀ (i : Nat) (id : FactId), (points.map Prod.fst)[i]? = some id → Core (neighbours cosine_similarity points eps) min_pts i →
      ∃! k : Nat, ∃ C : List FactId, (dbscan cosine_similarity points eps min_pts)[k]? = some C ∧ id ∈ C) ∧
    (∀ (i j : Nat) (id id' : FactId), (points.map Prod.fst)[i]? = some id → (points.map Prod.fst)[j]? = some id' →
      Core (neighbours cosine_similarity points eps) min_pts i → Core (neighbours cosine_similarity points eps) min_pts j →
      ((∃ C ∈ dbscan cosine_similarity points eps min_pts, id ∈ C ∧ id' ∈ C) ↔ Chain (neighbours cosine_similarity points eps) min_pts i j)) ∧
    (∀ C ∈ dbscan cosine_similarity points eps min_pts, ∀ id ∈ C, ∃ i, (points.map Prod.fst)[i]? = some id ∧
      (Core (neighbours cosine_similarity points eps) min_pts i ∨ ∃ (j : Nat) (other : FactId), (points.map Prod.fst)[j]? = some other ∧ other ∈ C ∧
        Core (neighbours cosine_similarity points eps) min_pts j ∧ i ∈ neighbours cosine_similarity points eps j)) ∧
    ∀ (i : Nat) (id : FactId), (points.map Prod.fst)[i]? = some id →
      ((∀ C ∈ dbscan cosine_similarity points eps min_pts, id ∉ C) ↔
        ¬ Core (neighbours cosine_similarity points eps) min_pts i ∧
          ∀ j, Core (neighbours cosine_similarity points eps) min_pts j → i ∉ neighbours cosine_similarity points eps j) := by
  have whole : Settled (neighbours cosine_similarity points eps) min_pts (label (neighbours cosine_similarity points eps) min_pts points.length).1 _ ∧ _ :=
    settled_label symmetric neighbours_inside neighbours_nodup
  obtain ⟨settled,visited⟩ := whole
  have counted : (points.map Prod.fst).length = points.length := List.length_map _
  have every : ∀ p < (points.map Prod.fst).length, (label (neighbours cosine_similarity points eps) min_pts points.length).1 p ≠ .unvisited :=
    fun p below => visited p (counted ▸ below)
  have inside : ∀ p q, q ∈ neighbours cosine_similarity points eps p → p < (points.map Prod.fst).length :=
    fun p q near => counted ▸ neighbours_of p near
  rw [dbscan_eq positive bounded]
  refine ⟨fun fuel enough => label_fuel neighbours_inside neighbours_nodup enough,clusters_disjoint _ distinct,?_,?_,?_,?_⟩
  · exact fun i id here dense => core_in_one settled distinct every here dense
  · exact fun i j id id' here there left right => together_iff settled distinct every here there left right
  · exact fun C listed id member => members_dense settled distinct listed member inside
  · exact fun i id here => noise_iff settled distinct every inside here

end clusters

/-- Two points that are as similar as can be. -/
theorem dbscan_clusters_sample : (∃ C ∈ dbscan (fun _ _ => 0x3F800000) [(1,[]),(2,[])] EPS 2, (1 : FactId) ∈ C ∧ 2 ∈ C) ∧
    Chain (neighbours (fun _ _ => 0x3F800000) [(1,[]),(2,[])] EPS) 2 0 1 := by
  have first : Core (neighbours (fun _ _ => 0x3F800000) [(1,[]),(2,[])] EPS) 2 0 := by decide +kernel
  have second : Core (neighbours (fun _ _ => 0x3F800000) [(1,[]),(2,[])] EPS) 2 1 := by decide +kernel
  have near : 1 ∈ neighbours (fun _ _ => 0x3F800000) [(1,[]),(2,[])] EPS 0 := by decide +kernel
  have chain : Chain (neighbours (fun _ _ => 0x3F800000) [(1,[]),(2,[])] EPS) 2 0 1 := .single ⟨first,second,near⟩
  obtain ⟨_,_,_,together,_⟩ := dbscan_clusters (fun _ _ => 0x3F800000) [(1,[]),(2,[])] EPS 2
    (by decide) (by decide) (by decide) (neighbours_symmetric fun _ _ => rfl)
  exact ⟨(together 0 1 1 2 rfl rfl first second).mpr chain,chain⟩

end MemoryEngine
