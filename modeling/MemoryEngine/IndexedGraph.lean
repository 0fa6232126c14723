import Mathlib.Data.List.Sort
import Mathlib.Data.List.Destutter
import Mathlib.Data.Multiset.Filter
import Mathlib.Data.Multiset.AddSub
import Mathlib.Data.Multiset.MapFold

/-! Directed multigraphs stored in two vectors, as petgraph stores them: nodes
and arcs are named by position, and a removal moves the last element into the
freed position. -/

namespace MemoryEngine.IndexedGraph

universe u v

section swapRemove
variable {α : Type u}

/-- Remove one position by moving the last element into it. -/
def swapRemove (items : List α) (i : Nat) : List α :=
  match items.getLast? with
  | none => items
  | some last => if i < items.length then (items.set i last).dropLast else items

theorem swapRemove_append (front : List α) (last : α) (i : Nat) (inside : i < front.length + 1) :
    swapRemove (front ++ [last]) i = if i < front.length then front.set i last else front := by
  have bound : i < (front ++ [last]).length := by simpa using inside
  simp only [swapRemove,List.getLast?_append,List.getLast?_singleton,Option.some_or,if_pos bound]
  by_cases before : i < front.length
  · rw [if_pos before,List.set_append_left _ _ before,List.dropLast_concat]
  · have atEnd : i = front.length := by omega
    subst atEnd
    rw [if_neg before,List.set_append_right _ _ (Nat.le_refl _)]
    simp

/-- A swap removal takes out the element at its position and nothing else. -/
theorem swapRemove_perm (items : List α) (i : Nat) (inside : i < items.length) :
    (items[i] :: swapRemove items i).Perm items := by
  rcases List.eq_nil_or_concat items with rfl | ⟨front,last,rfl⟩
  · exact absurd inside (Nat.not_lt_zero i)
  · simp only [List.concat_eq_append] at inside ⊢
    rw [swapRemove_append front last i (by simpa using inside)]
    by_cases before : i < front.length
    · rw [if_pos before]
      have taken : (front ++ [last])[i] = front[i] := List.getElem_append_left before
      rw [taken]
      have replaced := (List.set_perm_cons_eraseIdx before last).cons front[i]
      have restored := List.getElem_cons_eraseIdx_perm before
      calc front[i] :: front.set i last
          _ |>.Perm (front[i] :: last :: front.eraseIdx i) := replaced
          _ |>.Perm (last :: front[i] :: front.eraseIdx i) := List.Perm.swap _ _ _
          _ |>.Perm (last :: front) := restored.cons last
          _ |>.Perm (front ++ [last]) := (List.perm_append_singleton last front).symm
    · have atEnd : i = front.length := by simp at inside; omega
      subst atEnd
      simp only [Nat.lt_irrefl,if_false]
      rw [List.getElem_concat_length rfl]
      exact (List.perm_append_singleton last front).symm

theorem swapRemove_length (items : List α) (i : Nat) (inside : i < items.length) :
    (swapRemove items i).length + 1 = items.length :=
  (swapRemove_perm items i inside).length_eq

/-- Positions below the removed one keep their element. -/
theorem swapRemove_below (items : List α) (i j : Nat) (inside : i < items.length) (below : j < i) :
    (swapRemove items i)[j]? = items[j]? := by
  rcases List.eq_nil_or_concat items with rfl | ⟨front,last,rfl⟩
  · exact absurd inside (Nat.not_lt_zero i)
  · simp only [List.concat_eq_append] at inside ⊢
    rw [swapRemove_append front last i (by simpa using inside)]
    have within : j < front.length := by simp at inside; omega
    rw [List.getElem?_append_left within]
    split
    · rw [List.getElem?_set_ne (Nat.ne_of_gt below)]
    · rfl

/-- What every position holds after a removal: the freed one has the former last element. -/
theorem swapRemove_getElem? (items : List α) (i j : Nat) (inside : i < items.length) :
    (swapRemove items i)[j]? =
      if j + 1 < items.length then (if j = i then items[items.length - 1]? else items[j]?) else none := by
  rcases List.eq_nil_or_concat items with rfl | ⟨front,last,rfl⟩
  · exact absurd inside (Nat.not_lt_zero i)
  · simp only [List.concat_eq_append] at inside ⊢
    rw [swapRemove_append front last i (by simpa using inside)]
    simp only [List.length_append,List.length_singleton,Nat.add_lt_add_iff_right,Nat.add_sub_cancel,
      List.getElem?_concat_length]
    by_cases within : j < front.length
    · rw [if_pos within,List.getElem?_append_left within]
      by_cases here : j = i
      · subst here
        rw [if_pos within,if_pos rfl,List.getElem?_set_self within]
      · rw [if_neg here]
        split
        · rw [List.getElem?_set_ne (fun same => here same.symm)]
        · rfl
    · rw [if_neg within]
      have short : front.length ≤ j := by omega
      split
      · simpa using short
      · simpa using short

/-- Removing every position whose element is selected, from the highest down,
    leaves the elements that are not selected: no removal moves an element
    that a later one is about to take. -/
theorem foldl_swapRemove_perm (sel : α → Bool) (items : List α) (positions : List Nat)
    (descending : positions.Pairwise (· > ·))
    (selected : ∀ j, j ∈ positions ↔ ∃ a, items[j]? = some a ∧ sel a = true) :
    (positions.foldl swapRemove items).Perm (items.filter (fun a => !sel a)) := by
  induction positions generalizing items with
  | nil =>
    have none : ∀ a ∈ items, (!sel a) = true := by
      intro a member
      obtain ⟨j,found⟩ := List.mem_iff_getElem?.mp member
      have unselected := fun chosen => List.not_mem_nil ((selected j).mpr ⟨a,found,chosen⟩)
      simpa using unselected
    rw [List.filter_eq_self.mpr none]
    exact List.Perm.refl _
  | cons i rest ih =>
    obtain ⟨above,descending⟩ := List.pairwise_cons.mp descending
    obtain ⟨top,found,chosen⟩ := (selected i).mp List.mem_cons_self
    obtain ⟨here,rfl⟩ := List.getElem?_eq_some_iff.mp found
    have remaining : ∀ j, j ∈ rest ↔ ∃ a, (swapRemove items i)[j]? = some a ∧ sel a = true := by
      intro j
      constructor
      · intro member
        rw [swapRemove_below items i j here (above j member)]
        exact (selected j).mp (List.mem_cons_of_mem _ member)
      · rintro ⟨a,held,picked⟩
        rw [swapRemove_getElem? items i j here] at held
        by_cases within : j + 1 < items.length
        · rw [if_pos within] at held
          -- the element moved into the freed position stood above every selected one
          have apart : j ≠ i := by
            rintro rfl
            rw [if_pos rfl] at held
            rcases List.mem_cons.mp ((selected _).mpr ⟨a,held,picked⟩) with same | later
            · omega
            · have := above _ later
              omega
          rw [if_neg apart] at held
          exact (List.mem_cons.mp ((selected j).mpr ⟨a,held,picked⟩)).resolve_left apart
        · rw [if_neg within] at held
          cases held
    have kept := (swapRemove_perm items i here).filter (fun a => !sel a)
    rw [List.filter_cons_of_neg (by simpa using chosen)] at kept
    exact (ih (swapRemove items i) descending remaining).trans kept

/-- Positions, highest first, without repetition. -/
def descendingPositions (positions : List Nat) : List Nat :=
  (positions.insertionSort (· ≥ ·)).destutter (· ≠ ·)

private theorem mem_destutter'_ne (items : List Nat) (head x : Nat) (member : x ∈ head :: items) :
    x ∈ items.destutter' (· ≠ ·) head := by
  induction items generalizing head with
  | nil => simpa using member
  | cons next rest ih =>
    by_cases same : head = next
    · subst same
      rw [List.destutter'_cons_neg _ (by simp)]
      exact ih head (by simpa using member)
    · rw [List.destutter'_cons_pos _ same]
      rcases List.mem_cons.mp member with rfl | later
      · exact List.mem_cons_self
      · exact List.mem_cons_of_mem _ (ih next later)

theorem mem_descendingPositions {positions : List Nat} {i : Nat} : i ∈ descendingPositions positions ↔ i ∈ positions := by
  have sorted : i ∈ positions.insertionSort (· ≥ ·) ↔ i ∈ positions := (List.perm_insertionSort _ positions).mem_iff
  rw [← sorted,descendingPositions]
  constructor
  · exact fun member => (List.destutter_sublist _ _).mem member
  · intro member
    cases ordered : positions.insertionSort (· ≥ ·) with
    | nil => rw [ordered] at member; exact absurd member List.not_mem_nil
    | cons head rest =>
      rw [ordered] at member
      exact mem_destutter'_ne rest head i member

theorem descendingPositions_descending (positions : List Nat) : (descendingPositions positions).Pairwise (· > ·) := by
  have weak : (descendingPositions positions).Pairwise (· ≥ ·) :=
    (List.pairwise_insertionSort _ positions).sublist (List.destutter_sublist _ _)
  have distinct : (descendingPositions positions).IsChain (· ≠ ·) := List.isChain_destutter _ _
  have strict : (descendingPositions positions).IsChain (· > ·) := by
    rw [List.isChain_iff_getElem] at distinct ⊢
    intro i inside
    have above := List.pairwise_iff_getElem.mp weak i (i + 1) (by omega) inside (Nat.lt_succ_self i)
    exact lt_of_le_of_ne above (Ne.symm (distinct i inside))
  exact strict.pairwise
end swapRemove

section positions
variable {κ : Type u}

/-- A map from labels to positions that holds exactly the positions of a list,
    whose labels are then distinct. -/
def Indexes (position : κ → Option Nat) (labels : List κ) : Prop :=
  ∀ (label : κ) (i : Nat), position label = some i ↔ labels[i]? = some label

theorem Indexes.inside {position : κ → Option Nat} {labels : List κ} (indexed : Indexes position labels) {label : κ}
    {i : Nat} (found : position label = some i) : i < labels.length :=
  (List.getElem?_eq_some_iff.mp ((indexed label i).mp found)).1

theorem Indexes.unique {position : κ → Option Nat} {labels : List κ} (indexed : Indexes position labels) {label : κ}
    {i j : Nat} (left : labels[i]? = some label) (right : labels[j]? = some label) : i = j := by
  have first := (indexed label i).mpr left
  rw [(indexed label j).mpr right] at first
  exact (Option.some.inj first).symm

variable [DecidableEq κ]

/-- A label that has no position yet takes the next one. -/
theorem Indexes.append {position : κ → Option Nat} {labels : List κ} (indexed : Indexes position labels) (fresh : κ)
    (absent : position fresh = none) :
    Indexes (fun label => if label = fresh then some labels.length else position label) (labels ++ [fresh]) := by
  intro label i
  have unlabelled : ∀ j : Nat, labels[j]? ≠ some fresh := by
    intro j held
    rw [(indexed fresh j).mpr held] at absent
    cases absent
  rw [List.getElem?_append]
  by_cases same : label = fresh
  · subst same
    simp only [if_true,Option.some.injEq]
    by_cases within : i < labels.length
    · rw [if_pos within]
      constructor
      · intro atEnd
        omega
      · exact fun held => absurd held (unlabelled i)
    · rw [if_neg within]
      constructor
      · rintro rfl
        simp
      · intro held
        have := (List.getElem?_eq_some_iff.mp held).1
        simp only [List.length_singleton] at this
        omega
  · simp only [if_neg same]
    rw [indexed label i]
    by_cases within : i < labels.length
    · rw [if_pos within]
    · rw [if_neg within,List.getElem?_eq_none (Nat.le_of_not_lt within)]
      constructor
      · intro held
        cases held
      · intro held
        have member := List.mem_of_getElem? held
        exact absurd (List.mem_singleton.mp member) same

/-- After a swap removal the label that moved into the freed position is mapped
    there and the removed label is forgotten. -/
theorem Indexes.swapRemove {position : κ → Option Nat} {labels : List κ} (indexed : Indexes position labels) {gone : κ}
    {at' : Nat} (found : position gone = some at') :
    Indexes (fun label => if (IndexedGraph.swapRemove labels at')[at']? = some label then some at' else
      if label = gone then none else position label) (IndexedGraph.swapRemove labels at') := by
  intro label i
  have inside := indexed.inside found
  have here := (indexed gone at').mp found
  have held := fun j => swapRemove_getElem? labels at' j inside
  by_cases moved : (IndexedGraph.swapRemove labels at')[at']? = some label
  · simp only [if_pos moved,Option.some.injEq]
    constructor
    · rintro rfl
      exact moved
    · intro labelled
      by_contra apart
      rw [held] at moved labelled
      split at moved
      · rw [if_pos rfl] at moved
        split at labelled
        · rw [if_neg (fun same => apart same.symm)] at labelled
          have := indexed.unique moved labelled
          omega
        · cases labelled
      · cases moved
  · simp only [if_neg moved]
    by_cases same : label = gone
    · subst same
      simp only [if_true,reduceCtorEq,false_iff]
      intro labelled
      by_cases atIt : i = at'
      · rw [atIt] at labelled
        exact moved labelled
      · rw [held,if_neg atIt] at labelled
        split at labelled
        · exact atIt (indexed.unique labelled here)
        · cases labelled
    · simp only [if_neg same]
      rw [indexed label i]
      by_cases atIt : i = at'
      · subst atIt
        constructor
        · intro labelled
          rw [here] at labelled
          exact absurd (Option.some.inj labelled).symm same
        · exact fun labelled => absurd labelled moved
      · rw [held i,if_neg atIt]
        by_cases last : i + 1 < labels.length
        · rw [if_pos last]
        · rw [if_neg last]
          constructor
          · intro labelled
            have within := (List.getElem?_eq_some_iff.mp labelled).1
            have atEnd : i = labels.length - 1 := by omega
            rw [held,if_pos (by omega),if_pos rfl,← atEnd] at moved
            exact absurd labelled moved
          · intro labelled
            cases labelled

end positions

/-- An arc between two node positions. -/
structure Arc (E : Type v) where
  source : Nat
  target : Nat
  weight : E

/-- A directed multigraph. Every arc joins two positions of the node vector. -/
structure DiGraph (N : Type u) (E : Type v) where
  nodes : List N
  arcs : List (Arc E)
  joined : ∀ arc ∈ arcs, arc.source < nodes.length ∧ arc.target < nodes.length

namespace DiGraph
variable {N : Type u} {E : Type v}

def new : DiGraph N E := ⟨[],[],by simp⟩

def add_node (g : DiGraph N E) (n : N) : DiGraph N E where
  nodes := g.nodes ++ [n]
  arcs := g.arcs
  joined := by
    intro arc member
    obtain ⟨source,target⟩ := g.joined arc member
    simp only [List.length_append,List.length_singleton]
    omega

def add_edge (g : DiGraph N E) (source target : Nat) (weight : E) (inside : source < g.nodes.length ∧ target < g.nodes.length) :
    DiGraph N E where
  nodes := g.nodes
  arcs := g.arcs ++ [⟨source,target,weight⟩]
  joined := by
    intro arc member
    rcases List.mem_append.mp member with old | new
    · exact g.joined arc old
    · rw [List.mem_singleton.mp new]
      exact inside

theorem mem_of_mem_swapRemove {α : Type u} {items : List α} {i : Nat} {a : α} (member : a ∈ swapRemove items i) :
    a ∈ items := by
  by_cases inside : i < items.length
  · exact (swapRemove_perm items i inside).mem_iff.mp (List.mem_cons_of_mem _ member)
  · unfold swapRemove at member
    split at member
    · exact member
    · rwa [if_neg inside] at member

def remove_edge (g : DiGraph N E) (i : Nat) : DiGraph N E where
  nodes := g.nodes
  arcs := swapRemove g.arcs i
  joined := fun arc member => g.joined arc (mem_of_mem_swapRemove member)

/-- The positions of the arcs that leave or enter a node, one list after the other. -/
def edges_outgoing (g : DiGraph N E) (node : Nat) : List Nat :=
  (List.range g.arcs.length).filter (fun i => g.arcs[i]?.any (fun arc => arc.source == node))

def edges_incoming (g : DiGraph N E) (node : Nat) : List Nat :=
  (List.range g.arcs.length).filter (fun i => g.arcs[i]?.any (fun arc => arc.target == node))

theorem mem_edges_incident (g : DiGraph N E) (node i : Nat) :
    i ∈ g.edges_outgoing node ++ g.edges_incoming node ↔
      ∃ arc, g.arcs[i]? = some arc ∧ (arc.source == node || arc.target == node) = true := by
  simp only [edges_outgoing,edges_incoming,List.mem_append,List.mem_filter,List.mem_range]
  cases held : g.arcs[i]? with
  | none => simp
  | some arc =>
    have within : i < g.arcs.length := (List.getElem?_eq_some_iff.mp held).1
    simp [within]

/-- Remove arcs by position, highest first, each position once. -/
def remove_edges (g : DiGraph N E) (positions : List Nat) : DiGraph N E :=
  (descendingPositions positions).foldl remove_edge g

theorem foldl_remove_edge_arcs (g : DiGraph N E) (positions : List Nat) :
    (positions.foldl remove_edge g).arcs = positions.foldl swapRemove g.arcs := by
  induction positions generalizing g with
  | nil => rfl
  | cons i rest ih => exact ih (g.remove_edge i)

theorem foldl_remove_edge_nodes (g : DiGraph N E) (positions : List Nat) :
    (positions.foldl remove_edge g).nodes = g.nodes := by
  induction positions generalizing g with
  | nil => rfl
  | cons i rest ih => exact ih (g.remove_edge i)

@[simp] theorem remove_edges_nodes (g : DiGraph N E) (positions : List Nat) :
    (g.remove_edges positions).nodes = g.nodes := foldl_remove_edge_nodes g _

/-- Self loops and parallel arcs included, the arcs that stay are those that do
    not touch the node. -/
theorem remove_incident_perm (g : DiGraph N E) (node : Nat) :
    (g.remove_edges (g.edges_outgoing node ++ g.edges_incoming node)).arcs.Perm
      (g.arcs.filter (fun arc => !(arc.source == node || arc.target == node))) := by
  rw [remove_edges,foldl_remove_edge_arcs]
  refine foldl_swapRemove_perm _ g.arcs _ (descendingPositions_descending _) fun i => ?_
  rw [mem_descendingPositions]
  exact mem_edges_incident g node i

/-- Remove a node. Its arcs go first, each by a swap of its own, in an order that petgraph
    leaves open; then the last node takes over the freed position and its arcs follow it. -/
def remove_node (g : DiGraph N E) (i : Nat) (inside : i < g.nodes.length) : DiGraph N E where
  nodes := swapRemove g.nodes i
  arcs :=
    let moved := fun j => if j = g.nodes.length - 1 then i else j
    (g.remove_edges (g.edges_outgoing i ++ g.edges_incoming i)).arcs.map
      (fun arc => ⟨moved arc.source,moved arc.target,arc.weight⟩)
  joined := by
    intro arc member
    obtain ⟨old,kept,rfl⟩ := List.mem_map.mp member
    obtain ⟨member,apart⟩ := List.mem_filter.mp ((g.remove_incident_perm i).mem_iff.mp kept)
    obtain ⟨source,target⟩ := g.joined old member
    have size := swapRemove_length g.nodes i inside
    simp only [Bool.not_eq_true',Bool.or_eq_false_iff,beq_eq_false_iff_ne] at apart
    constructor
    · dsimp only
      split <;> omega
    · dsimp only
      split <;> omega

/-- The nodes at the other end of the arcs that leave a node, once for each arc. -/
def neighbors_outgoing (g : DiGraph N E) (node : Nat) : List Nat := (g.arcs.filter (fun arc => arc.source == node)).map Arc.target

/-- The nodes at the other end of the arcs that enter a node, once for each arc. -/
def neighbors_incoming (g : DiGraph N E) (node : Nat) : List Nat := (g.arcs.filter (fun arc => arc.target == node)).map Arc.source

end DiGraph
end MemoryEngine.IndexedGraph
