import Mathlib.Data.List.Nodup
import Mathlib.Data.List.Perm.Subperm
import Mathlib.Data.List.Range
import Mathlib.Logic.Function.Basic
import Mathlib.Tactic.Common

/-! Density-based clustering of the numbers below a bound, given the neighbours of each. A
point with enough neighbours starts a cluster, which then grows over the neighbours of
those of its members that have enough themselves. -/

namespace MemoryEngine.Dbscan

inductive Label where
  | unvisited
  | noise
  | cluster (id : Nat)
deriving DecidableEq

/-- The seeds of a cluster that still wait, and which points were ever put among them. -/
structure Frontier where
  seeds : List Nat
  queued : Nat → Bool

/-- Put one point among the seeds unless it was there before. -/
def Frontier.push (frontier : Frontier) (point : Nat) : Frontier :=
  if frontier.queued point then frontier else ⟨frontier.seeds ++ [point],Function.update frontier.queued point true⟩

section algorithm
variable (neighbours : Nat → List Nat) (min_pts : Nat)

/-- The point has enough neighbours, itself included. -/
def Core (point : Nat) : Prop := min_pts ≤ (neighbours point).length + 1

instance (point : Nat) : Decidable (Core neighbours min_pts point) := inferInstanceAs (Decidable (_ ≤ _))

/-- Noise that turns up as a neighbour joins as a border point. -/
def border (id q : Nat) (labels : Nat → Label) : Nat → Label :=
  if labels q = .noise then Function.update labels q (.cluster id) else labels

/-- Take the seeds in order; `fuel` bounds their number. -/
def expand (id : Nat) : Nat → Frontier → (Nat → Label) → Nat → Label
  | 0,_,labels => labels
  | fuel + 1,frontier,labels =>
    match frontier.seeds with
    | [] => labels
    | q :: rest =>
      if border id q labels q ≠ .unvisited then expand id fuel ⟨rest,frontier.queued⟩ (border id q labels) else
      if Core neighbours min_pts q then
        expand id fuel ((neighbours q).foldl Frontier.push ⟨rest,frontier.queued⟩) (Function.update (border id q labels) q (.cluster id))
      else expand id fuel ⟨rest,frontier.queued⟩ (Function.update (border id q labels) q (.cluster id))

/-- The seeds of a cluster that begins at a point. -/
def start (p : Nat) : Frontier := ⟨neighbours p,fun point => decide (point = p ∨ point ∈ neighbours p)⟩

/-- Visit one point of the outer loop. -/
def visit (bound : Nat) (state : (Nat → Label) × Nat) (p : Nat) : (Nat → Label) × Nat :=
  if state.1 p ≠ .unvisited then state else
  if ¬ Core neighbours min_pts p then (Function.update state.1 p .noise,state.2) else
    (expand neighbours min_pts state.2 bound (start neighbours p) (Function.update state.1 p (.cluster state.2)),state.2 + 1)

/-- The labels of the points below the bound, and the number of clusters. -/
def label (bound : Nat) : (Nat → Label) × Nat :=
  (List.range bound).foldl (visit neighbours min_pts bound) (fun _ => .unvisited,0)

/-- The cluster of one number among items in order. -/
def members {α : Type} (labels : Nat → Label) (items : List α) (id : Nat) : List α :=
  (items.zipIdx.filter fun item => labels item.2 = .cluster id).map Prod.fst

end algorithm

variable {neighbours : Nat → List Nat} {min_pts : Nat}

/-- Some points without a cluster joined this one. -/
def Joins (id : Nat) (labels labels' : Nat → Label) : Prop :=
  ∀ point, labels' point = labels point ∨ labels' point = .cluster id ∧ ∀ other, labels point ≠ .cluster other

theorem Joins.refl (id : Nat) (labels : Nat → Label) : Joins id labels labels := fun _ => .inl rfl

theorem Joins.trans {id : Nat} {labels labels' labels'' : Nat → Label} (first : Joins id labels labels') (second : Joins id labels' labels'') :
    Joins id labels labels'' := by
  intro point
  rcases second point with same | ⟨joined,free⟩
  · rw [same]
    exact first point
  · rcases first point with same | ⟨before,_⟩
    · rw [same] at free
      exact .inr ⟨joined,free⟩
    · exact absurd before (free id)

theorem Joins.update {id q : Nat} {labels : Nat → Label} (free : ∀ other, labels q ≠ .cluster other) :
    Joins id labels (Function.update labels q (.cluster id)) := by
  intro point
  by_cases here : point = q
  · rw [here]
    exact .inr ⟨Function.update_self _ _ _,free⟩
  · exact .inl (Function.update_of_ne here _ _)

/-- The numbers in use are those handed out so far. -/
def Below (state : (Nat → Label) × Nat) : Prop := ∀ point id, state.1 point = .cluster id → id < state.2

/-! Every point is put among the seeds of one cluster once at most, so the bound is fuel
enough. -/

/-- How many points below the bound were never put among the seeds. -/
def unqueued (bound : Nat) (queued : Nat → Bool) : Nat := (List.range bound).countP fun point => !queued point

/-- The seeds that wait and those that can still come. -/
def Frontier.left (bound : Nat) (frontier : Frontier) : Nat := frontier.seeds.length + unqueued bound frontier.queued

theorem unqueued_update {bound point : Nat} {queued : Nat → Bool} (inside : point < bound) (new : queued point = false) :
    unqueued bound queued = unqueued bound (Function.update queued point true) + 1 := by
  have member : point ∈ List.range bound := List.mem_range.mpr inside
  obtain ⟨front,rest,whole⟩ := List.append_of_mem member
  have distinct : (front ++ point :: rest).Nodup := whole ▸ List.nodup_range
  have others : ∀ l : List Nat, point ∉ l → l.countP (fun p => !Function.update queued point true p) = l.countP (fun p => !queued p) := by
    intro l away
    refine List.countP_congr fun p listed => ?_
    have elsewhere : p ≠ point := fun same => away (by rw [← same]; exact listed)
    rw [Function.update_of_ne elsewhere]
  obtain ⟨_,tail,apart⟩ := List.nodup_append.mp distinct
  have ahead : point ∉ front := fun listed => apart point listed point List.mem_cons_self rfl
  have behind : point ∉ rest := (List.nodup_cons.mp tail).1
  rw [unqueued,unqueued,whole,List.countP_append,List.countP_append,List.countP_cons,List.countP_cons,others front ahead,others rest behind]
  simp [new,Nat.add_assoc]

theorem left_push {bound point : Nat} (inside : point < bound) (frontier : Frontier) : (frontier.push point).left bound = frontier.left bound := by
  unfold Frontier.push
  split
  · rfl
  · rename_i new
    simp only [Frontier.left,List.length_append,List.length_singleton,unqueued_update inside (Bool.not_eq_true _ ▸ new)]
    omega

theorem left_pushes {bound : Nat} {points : List Nat} (inside : ∀ point ∈ points, point < bound) (frontier : Frontier) :
    (points.foldl Frontier.push frontier).left bound = frontier.left bound := by
  induction points generalizing frontier with
  | nil => rfl
  | cons point rest ih =>
    obtain ⟨here,others⟩ := List.forall_mem_cons.mp inside
    rw [List.foldl_cons,ih others,left_push here]

/-- More fuel than there are seeds makes no difference. -/
theorem expand_fuel {bound : Nat} (inside : ∀ p, ∀ point ∈ neighbours p, point < bound) {id fuel : Nat} {frontier : Frontier}
    (enough : frontier.left bound ≤ fuel) (labels : Nat → Label) :
    expand neighbours min_pts id (fuel + 1) frontier labels = expand neighbours min_pts id fuel frontier labels := by
  induction fuel generalizing frontier labels with
  | zero =>
    obtain ⟨seeds,queued⟩ := frontier
    cases seeds with
    | nil => rfl
    | cons q rest =>
      simp only [Frontier.left,List.length_cons] at enough
      omega
  | succ fuel ih =>
    obtain ⟨seeds,queued⟩ := frontier
    cases seeds with
    | nil => rfl
    | cons q rest =>
      have later : (⟨rest,queued⟩ : Frontier).left bound ≤ fuel := by
        simp only [Frontier.left,List.length_cons] at enough ⊢
        omega
      rw [expand,expand]
      dsimp only
      split
      · exact ih later _
      · split
        · exact ih (by rw [left_pushes (inside q)]; exact later) _
        · exact ih later _

/-- The seeds of a new cluster and the points besides are no more than the bound. -/
theorem left_start {bound p : Nat} (inside : ∀ point ∈ neighbours p, point < bound) (distinct : (neighbours p).Nodup) : (start neighbours p).left bound ≤ bound := by
  have waiting : (neighbours p).length ≤ (List.range bound).countP (start neighbours p).queued := by
    rw [List.countP_eq_length_filter]
    refine (distinct.subperm fun point listed => ?_).length_le
    exact List.mem_filter.mpr ⟨List.mem_range.mpr (inside point listed),decide_eq_true (.inr listed)⟩
  have counted := List.length_eq_countP_add_countP (start neighbours p).queued (l := List.range bound)
  have rest : (List.range bound).countP (fun point => decide ¬(start neighbours p).queued point = true) = unqueued bound (start neighbours p).queued := by
    refine List.countP_congr fun point _ => ?_
    simp
  rw [List.length_range,rest] at counted
  change (neighbours p).length + unqueued bound (start neighbours p).queued ≤ bound
  omega

/-- The fuel of a visit is enough. -/
theorem expand_start {bound p : Nat} (inside : ∀ p, ∀ point ∈ neighbours p, point < bound) (distinct : (neighbours p).Nodup) (id extra : Nat) (labels : Nat → Label) :
    expand neighbours min_pts id (bound + extra) (start neighbours p) labels = expand neighbours min_pts id bound (start neighbours p) labels := by
  induction extra with
  | zero => rfl
  | succ extra ih =>
    have enough : (start neighbours p).left bound ≤ bound + extra := (left_start (inside p) distinct).trans (Nat.le_add_right _ _)
    rw [← Nat.add_assoc,expand_fuel inside enough,ih]

/-! The clusters of a list of items. -/
section items
variable {α : Type} {labels : Nat → Label} {items : List α}

theorem members_sublist (id : Nat) : (members labels items id).Sublist items := by
  have kept := (List.filter_sublist (p := fun item : α × Nat => labels item.2 = .cluster id) (l := items.zipIdx)).map Prod.fst
  rwa [List.zipIdx_map_fst] at kept

/-- No item is in two clusters. -/
theorem members_disjoint (distinct : items.Nodup) {id id' : Nat} (apart : id ≠ id') :
    (members labels items id).Disjoint (members labels items id') := by
  intro item left right
  obtain ⟨⟨x,i⟩,chosen,rfl⟩ := List.mem_map.mp left
  obtain ⟨⟨y,j⟩,chosen',same⟩ := List.mem_map.mp right
  obtain ⟨listed,first⟩ := List.mem_filter.mp chosen
  obtain ⟨listed',second⟩ := List.mem_filter.mp chosen'
  obtain ⟨inside,here⟩ := List.mem_zipIdx' listed
  obtain ⟨inside',here'⟩ := List.mem_zipIdx' listed'
  have place : i = j := (List.Nodup.getElem_inj_iff distinct).mp (here.symm.trans (same.symm.trans here'))
  simp only [place,decide_eq_true_eq] at first second
  exact apart (Label.cluster.inj (first.symm.trans second))

end items

end MemoryEngine.Dbscan
