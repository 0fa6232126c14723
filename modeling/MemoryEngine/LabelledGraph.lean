import Mathlib.Data.Multiset.Filter
import Mathlib.Data.Multiset.AddSub
import Mathlib.Data.Multiset.ZeroCons
import Mathlib.Data.Set.Insert

/-! Directed multigraphs with labels on their arrows. A label has a key, and removal by key
takes one arrow of that key; while keys are distinct there is one to take at most. -/

namespace MemoryEngine.LabelledGraph

universe u v w

structure Arrow (V : Type u) (L : Type v) where
  source : V
  target : V
  label : L

/-- The arrow starts or ends at the vertex. -/
def Arrow.Touches {V : Type u} {L : Type v} (a : Arrow V L) (x : V) : Prop := a.source = x ∨ a.target = x

instance {V : Type u} {L : Type v} [DecidableEq V] (a : Arrow V L) (x : V) : Decidable (a.Touches x) :=
  inferInstanceAs (Decidable (_ ∨ _))

/-- Every arrow joins two vertices of the graph. -/
@[ext] structure Multigraph (V : Type u) (L : Type v) where
  nodes : Set V
  arrows : Multiset (Arrow V L)
  closed : ∀ a ∈ arrows, a.source ∈ nodes ∧ a.target ∈ nodes

/-- Add an arrow with its ends, remove one by its key, remove those at a vertex, or the
    vertex as well. -/
inductive Op (V : Type u) (L : Type v) (κ : Type w) where
  | add (source target : V) (label : L)
  | remove (key : κ)
  | isolate (x : V)
  | delete (x : V)

namespace Multigraph
variable {V : Type u} {L : Type v} {κ : Type w}

def empty : Multigraph V L := ⟨∅,0,by simp⟩

def add (G : Multigraph V L) (source target : V) (label : L) : Multigraph V L where
  nodes := insert source (insert target G.nodes)
  arrows := ⟨source,target,label⟩ ::ₘ G.arrows
  closed := by
    intro a member
    rcases Multiset.mem_cons.mp member with rfl | old
    · simp
    · obtain ⟨left,right⟩ := G.closed a old
      simp [left,right]

def remove (G : Multigraph V L) (a : Arrow V L) (rest : Multiset (Arrow V L)) (held : G.arrows = a ::ₘ rest) : Multigraph V L where
  nodes := G.nodes
  arrows := rest
  closed := fun b member => G.closed b (held ▸ Multiset.mem_cons_of_mem member)

section vertices
variable [DecidableEq V]

def isolate (G : Multigraph V L) (x : V) : Multigraph V L where
  nodes := G.nodes
  arrows := G.arrows.filter (fun a => ¬ a.Touches x)
  closed := fun a member => G.closed a (Multiset.mem_filter.mp member).1

def delete (G : Multigraph V L) (x : V) : Multigraph V L where
  nodes := {y ∈ G.nodes | y ≠ x}
  arrows := G.arrows.filter (fun a => ¬ a.Touches x)
  closed := by
    intro a member
    obtain ⟨old,apart⟩ := Multiset.mem_filter.mp member
    obtain ⟨left,right⟩ := G.closed a old
    exact ⟨⟨left,fun same => apart (.inl same)⟩,right,fun same => apart (.inr same)⟩

/-- The ends of the arrows that leave a vertex. -/
def successors (G : Multigraph V L) (x : V) : Multiset V := (G.arrows.filter (fun a => a.source = x)).map Arrow.target

/-- The starts of the arrows that enter a vertex. -/
def predecessors (G : Multigraph V L) (x : V) : Multiset V := (G.arrows.filter (fun a => a.target = x)).map Arrow.source

/-- The other vertices that an arrow joins to this one. -/
def Adjacent (G : Multigraph V L) (x y : V) : Prop := y ≠ x ∧ (y ∈ G.successors x ∨ y ∈ G.predecessors x)

/-- An arrow from a vertex to itself counts twice. -/
def degree (G : Multigraph V L) (x : V) : Nat := (G.successors x).card + (G.predecessors x).card

variable (key : L → κ)

inductive Step (G : Multigraph V L) : Op V L κ → Multigraph V L → Prop where
  | add (source target : V) (label : L) : Step G (.add source target label) (G.add source target label)
  | remove (a : Arrow V L) (rest : Multiset (Arrow V L)) (held : G.arrows = a ::ₘ rest) : Step G (.remove (key a.label)) (G.remove a rest held)
  | missing (k : κ) (absent : ∀ a ∈ G.arrows, key a.label ≠ k) : Step G (.remove k) G
  | isolate (x : V) : Step G (.isolate x) (G.isolate x)
  | delete (x : V) : Step G (.delete x) (G.delete x)

/-- The operations one after the other. -/
def Run : Multigraph V L → List (Op V L κ) → Multigraph V L → Prop
  | G,[],last => last = G
  | G,op :: ops,last => ∃ M, Step key G op M ∧ Run M ops last

end vertices

/-- The keys that operations bring in. -/
def added (key : L → κ) (ops : List (Op V L κ)) : List κ :=
  ops.filterMap fun
    | .add _ _ label => some (key label)
    | _ => none

variable {key : L → κ}

/-- The keys of the arrows. -/
def keys (key : L → κ) (G : Multigraph V L) : Multiset κ := G.arrows.map fun a => key a.label

variable [DecidableEq V]

/-- With distinct keys an operation has one outcome. -/
theorem Step.functional {G M M' : Multigraph V L} {op : Op V L κ} (distinct : (G.keys key).Nodup) (first : Step key G op M)
    (second : Step key G op M') : M' = M := by
  generalize same : op = op' at second
  cases first with
  | add source target label =>
    cases second <;> cases same
    rfl
  | remove a rest held =>
    cases second with
    | remove b rest' held' =>
      have named : key a.label = key b.label := Op.remove.inj same
      rw [keys,held,Multiset.map_cons,Multiset.nodup_cons] at distinct
      have here : a = b := by
        by_contra apart
        have other : b ∈ rest := by
          have listed : b ∈ G.arrows := held' ▸ Multiset.mem_cons_self b rest'
          rw [held] at listed
          exact (Multiset.mem_cons.mp listed).resolve_left fun equal => apart equal.symm
        exact distinct.1 (named ▸ Multiset.mem_map_of_mem _ other)
      subst here
      have left : rest' = rest := (Multiset.cons_inj_right a).mp (held'.symm.trans held)
      subst left
      rfl
    | missing k absent =>
      cases same
      exact absurd rfl (absent a (held ▸ Multiset.mem_cons_self a rest))
    | _ => cases same
  | missing k absent =>
    cases second with
    | remove b rest' held' =>
      cases same
      exact absurd rfl (absent b (held' ▸ Multiset.mem_cons_self b rest'))
    | missing k' absent' => rfl
    | _ => cases same
  | isolate x =>
    cases second <;> cases same
    rfl
  | delete x =>
    cases second <;> cases same
    rfl

/-- An operation brings in at most the key of its own arrow. -/
theorem Step.keys_le {G M : Multigraph V L} {op : Op V L κ} (step : Step key G op M) :
    M.keys key ≤ G.keys key + (added key [op] : List κ) := by
  cases step with
  | add source target label =>
    change _ ≤ G.keys key + ((key label ::ₘ 0 : Multiset κ))
    rw [Multiset.add_cons,Multiset.add_zero]
    exact le_of_eq (Multiset.map_cons _ _ _)
  | remove a rest held =>
    change Multiset.map _ rest ≤ Multiset.map _ G.arrows + 0
    rw [held,Multiset.map_cons,Multiset.add_zero]
    exact Multiset.le_cons_self _ _
  | missing k absent => exact Multiset.le_add_right _ _
  | isolate x => exact (Multiset.map_le_map (Multiset.filter_le _ _)).trans (Multiset.le_add_right _ _)
  | delete x => exact (Multiset.map_le_map (Multiset.filter_le _ _)).trans (Multiset.le_add_right _ _)

/-- With distinct keys throughout, a run has one outcome. -/
theorem Run.functional {G M M' : Multigraph V L} {ops : List (Op V L κ)} (distinct : (G.keys key + (added key ops : List κ)).Nodup)
    (first : Run key G ops M) (second : Run key G ops M') : M' = M := by
  induction ops generalizing G with
  | nil => exact second.trans first.symm
  | cons op rest ih =>
    obtain ⟨N,step,later⟩ := first
    obtain ⟨N',step',later'⟩ := second
    have split : (added key (op :: rest) : Multiset κ) = (added key [op] : List κ) + (added key rest : List κ) := by
      have joined : added key (op :: rest) = added key [op] ++ added key rest := by
        unfold added
        rw [← List.filterMap_append]
        rfl
      rw [joined,Multiset.coe_add]
    rw [split,← Multiset.add_assoc] at distinct
    have here : (G.keys key).Nodup :=
      Multiset.nodup_of_le ((Multiset.le_add_right _ _).trans (Multiset.le_add_right _ _)) distinct
    have same := step.functional here step'
    subst same
    exact ih (Multiset.nodup_of_le (Multiset.add_le_add_right step.keys_le) distinct) later later'

end Multigraph
end MemoryEngine.LabelledGraph
