import MemoryEngine.Frames
import MemoryEngine.Engine
import MemoryEngine.Mirror

/-! Edits of the active edges. Every graph-changing operation commits one edit to
the store and replays one on the graph; this module says what the statements
and the graph primitives are as edits. -/

namespace MemoryEngine
open Time KeyedTable Transaction Mirror

/-- An edge triple touches a fact. -/
def tripleTouches (fact_id : FactId) (edge : Int × FactId × FactId) : Bool := edge.2.1 == fact_id || edge.2.2 == fact_id

/-- An edit of edges whose test reads the triple alone. -/
structure GraphEdit where
  drop : Int × FactId × FactId → Bool
  add : Multiset GraphEdgeSnapshot

namespace GraphEdit

/-- The edit on whole edges. -/
def full (e : GraphEdit) : Edit GraphEdgeSnapshot := ⟨fun s => e.drop s.triple,e.add⟩

/-- The edit on triples. -/
def triples (e : GraphEdit) : Edit (Int × FactId × FactId) := ⟨e.drop,e.add.map GraphEdgeSnapshot.triple⟩

def apply (e : GraphEdit) (s : Multiset GraphEdgeSnapshot) : Multiset GraphEdgeSnapshot := e.full.apply s

theorem map_apply (e : GraphEdit) (s : Multiset GraphEdgeSnapshot) :
    (e.apply s).map GraphEdgeSnapshot.triple = e.triples.apply (s.map GraphEdgeSnapshot.triple) :=
  Edit.apply_map e.full e.triples GraphEdgeSnapshot.triple (fun _ => rfl) rfl s

def skip : GraphEdit := ⟨fun _ => false,0⟩

/-- Add edges and drop none. -/
def adding (edges : List GraphEdgeSnapshot) : GraphEdit := ⟨fun _ => false,edges⟩

/-- Drop the edges of some facts. -/
def dropping (ids : List FactId) : GraphEdit := ⟨fun x => ids.any (fun id => tripleTouches id x),0⟩

/-- Drop the edge with one id. -/
def droppingEdge (id : Int) : GraphEdit := ⟨fun x => x.1 == id,0⟩

@[simp] theorem skip_apply (s : Multiset GraphEdgeSnapshot) : skip.apply s = s := Edit.skip_apply s

@[simp] theorem adding_apply (edges : List GraphEdgeSnapshot) (s : Multiset GraphEdgeSnapshot) :
    (adding edges).apply s = s + (edges : Multiset GraphEdgeSnapshot) := by
  simp [apply,full,adding,Edit.apply]

theorem dropping_apply (ids : List FactId) (s : Multiset GraphEdgeSnapshot) :
    (dropping ids).apply s = s.filter (fun e => ∀ id ∈ ids, e.touches id = false) := by
  simp only [apply,full,dropping,Edit.apply,Multiset.add_zero]
  refine Multiset.filter_congr fun e _ => ?_
  rw [List.any_eq_false]
  refine forall₂_congr fun id _ => ?_
  rw [Bool.not_eq_true]
  exact Iff.rfl

theorem dropping_nil (s : Multiset GraphEdgeSnapshot) : (dropping []).apply s = s := by
  simp [dropping_apply]

theorem dropping_cons (id : FactId) (ids : List FactId) (s : Multiset GraphEdgeSnapshot) :
    (dropping (id :: ids)).apply s = (dropping ids).apply ((dropping [id]).apply s) := by
  simp only [dropping_apply,Multiset.filter_filter]
  refine Multiset.filter_congr fun e _ => ?_
  simp only [List.forall_mem_cons,List.not_mem_nil,false_implies,implies_true,and_true]
  exact and_comm

theorem dropping_append (ids ids' : List FactId) (s : Multiset GraphEdgeSnapshot) :
    (dropping (ids ++ ids')).apply s = (dropping ids').apply ((dropping ids).apply s) := by
  induction ids generalizing s with
  | nil => rw [List.nil_append,dropping_nil]
  | cons id rest ih => rw [List.cons_append,dropping_cons,ih,dropping_cons id rest]

theorem droppingEdge_apply (id : Int) (s : Multiset GraphEdgeSnapshot) :
    (droppingEdge id).apply s = s.filter (fun e => e.edge_id ≠ id) := by
  simp only [apply,full,droppingEdge,Edit.apply,Multiset.add_zero]
  refine Multiset.filter_congr fun e _ => ?_
  rw [beq_eq_false_iff_ne]
  exact Iff.rfl

end GraphEdit

open GraphEdit

/-- One transaction carries out an edit of the active edges and gives new ids to
    the edges it adds. -/
structure Edits (e : GraphEdit) (s t : Db) : Prop where
  store : t.activeEdges = e.apply s.activeEdges
  fresh : ∀ x ∈ e.add, s.edges.nextId ≤ x.edge_id
  later : s.edges.nextId ≤ t.edges.nextId

namespace Edits

theorem of_same {s t : Db} (same : SameEdges s t) : Edits skip s t where
  store := by rw [same.activeEdges,skip_apply]
  fresh := fun x member => absurd member (Multiset.notMem_zero x)
  later := by rw [same.1]

theorem after {e : GraphEdit} {s m t : Db} (same : SameEdges s m) (edits : Edits e m t) : Edits e s t := by
  have edges := same.1
  refine ⟨by rw [edits.store,same.activeEdges],?_,?_⟩
  · rw [← edges]
    exact edits.fresh
  · rw [← edges]
    exact edits.later

theorem before {e : GraphEdit} {s m t : Db} (edits : Edits e s m) (same : SameEdges m t) : Edits e s t :=
  ⟨by rw [same.activeEdges,edits.store],edits.fresh,edits.later.trans (by rw [same.1])⟩

theorem dropping_trans {ids ids' : List FactId} {s m t : Db} (first : Edits (dropping ids) s m)
    (second : Edits (dropping ids') m t) : Edits (dropping (ids ++ ids')) s t where
  store := by rw [second.store,first.store,dropping_append]
  fresh := fun x member => absurd member (Multiset.notMem_zero x)
  later := first.later.trans second.later

theorem dropping_none {s t : Db} (same : SameEdges s t) : Edits (dropping []) s t :=
  ⟨by rw [same.activeEdges,dropping_nil],fun x member => absurd member (Multiset.notMem_zero x),by rw [same.1]⟩

theorem adding_trans {edges edges' : List GraphEdgeSnapshot} {s m t : Db} (first : Edits (adding edges) s m)
    (second : Edits (adding edges') m t) : Edits (adding (edges ++ edges')) s t where
  store := by rw [second.store,first.store,adding_apply,adding_apply,adding_apply,Multiset.add_assoc,Multiset.coe_add]
  fresh := by
    intro x member
    rcases List.mem_append.mp (Multiset.mem_coe.mp member) with here | there
    · exact first.fresh x (Multiset.mem_coe.mpr here)
    · exact first.later.trans (second.fresh x (Multiset.mem_coe.mpr there))
  later := first.later.trans second.later

theorem adding_none {s t : Db} (same : SameEdges s t) : Edits (adding []) s t := of_same same

/-- Drop first, add afterwards. -/
theorem replacing {ids : List FactId} {edges : List GraphEdgeSnapshot} {s m t : Db} (first : Edits (dropping ids) s m)
    (second : Edits (adding edges) m t) : Edits ⟨(dropping ids).drop,edges⟩ s t where
  store := by
    rw [second.store,first.store,adding_apply]
    simp [apply,full,dropping,Mirror.Edit.apply]
  fresh := fun x member => first.later.trans (second.fresh x member)
  later := first.later.trans second.later

/-- The ids of the added edges are distinct and below the next id. -/
theorem added_ids {e : GraphEdit} {s t : Db} (edits : Edits e s t) :
    (e.add.map GraphEdgeSnapshot.edge_id).Nodup ∧ ∀ x ∈ e.add, x.edge_id < t.edges.nextId := by
  have within : e.add ≤ t.activeEdges := by
    rw [edits.store]
    exact Multiset.le_add_left _ _
  constructor
  · exact Multiset.nodup_of_le (Multiset.map_le_map within) (activeEdges_ids_nodup _)
  · exact fun x member => edge_id_lt_next (Multiset.mem_of_le within member)

end Edits

/-- The active edge an insertion creates. -/
def EdgeStore.inserted (edge : NewEdge) (id : Int) : GraphEdgeSnapshot :=
  ⟨id,edge.source_fact_id,edge.target_fact_id,RelationType.from edge.relation_type.as_str,edge.weight⟩

theorem EdgeStore.edits_insert {edge : NewEdge} {s t : Db} {id : Int} (open_ : edge.t_expired = none)
    (committed : Commits (EdgeStore.insert edge) s id t) : Edits (adding [inserted edge id]) s t := by
  obtain ⟨weight,weighed,rfl,written⟩ := EdgeStore.commits_insert.mp committed
  refine ⟨?_,?_,?_⟩
  · rw [written,EdgeStore.activeEdges_insert _ _ _ open_,adding_apply,inserted,weighed,Multiset.coe_singleton,
      Multiset.add_comm,Multiset.singleton_add]
  · intro x member
    rw [List.mem_singleton.mp (Multiset.mem_coe.mp member)]
    exact le_refl _
  · rw [written]
    exact Int.le_of_lt (Int.lt_succ _)

theorem EdgeStore.edits_expire_by_fact {fact_id : FactId} {now : DateTime} {s t : Db} {n : Nat}
    (committed : Commits (EdgeStore.expire_by_fact fact_id now) s n t) : Edits (dropping [fact_id]) s t := by
  obtain ⟨_,written⟩ := EdgeStore.commits_expire_by_fact.mp committed
  refine ⟨?_,fun x member => absurd member (Multiset.notMem_zero x),by rw [written]; exact le_refl _⟩
  rw [written,EdgeStore.activeEdges_expireRows _ (EdgeStore.incident fact_id) (fun e => !e.touches fact_id) now (fun _ => rfl),
    dropping_apply]
  refine Multiset.filter_congr fun e _ => ?_
  simp

theorem EdgeStore.edits_expire {id : Int} {now : DateTime} {s t : Db} {u : Unit}
    (committed : Commits (EdgeStore.expire id now) s u t) : Edits (droppingEdge id) s t := by
  obtain ⟨_,written⟩ := EdgeStore.commits_expire.mp committed
  refine ⟨?_,fun x member => absurd member (Multiset.notMem_zero x),by rw [written]; exact le_refl _⟩
  rw [written,EdgeStore.activeEdges_expireRows _ (fun e => e.id == id) (fun e => !(e.edge_id == id)) now (fun _ => rfl),
    droppingEdge_apply]
  refine Multiset.filter_congr fun e _ => ?_
  simp

/-- A change of the graph carries out an edit, as long as the graph can tell its
    edges apart by their ids. -/
def Replays (e : GraphEdit) (change : MemoryGraph → MemoryGraph) : Prop :=
  ∀ g : MemoryGraph, (g.view.map GraphEdgeSnapshot.edge_id).Nodup → (change g).view = e.apply g.view

theorem replays_skip : Replays skip id := fun g _ => (skip_apply g.view).symm

namespace MemoryGraph

theorem view_add_edge_as (g : MemoryGraph) (source target : FactId) (data : EdgeData) :
    (g.add_edge source target data).view =
      (adding [⟨data.edge_id,source,target,data.relation_type,data.weight⟩]).apply g.view := by
  rw [view_add_edge,adding_apply,Multiset.coe_singleton,Multiset.add_comm,Multiset.singleton_add]

theorem view_remove_edges_by_fact_as (g : MemoryGraph) (fact_id : FactId) :
    (g.remove_edges_by_fact fact_id).view = (dropping [fact_id]).apply g.view := by
  rw [view_remove_edges_by_fact,dropping_apply]
  simp

theorem view_remove_node_as (g : MemoryGraph) (fact_id : FactId) :
    (g.remove_node fact_id).view = (dropping [fact_id]).apply g.view := by
  rw [view_remove_node,dropping_apply]
  simp

/-- Removing the edges of several facts, one fact after the other. -/
theorem view_foldl_remove (ids : List FactId) (g : MemoryGraph) :
    (ids.foldl remove_edges_by_fact g).view = (dropping ids).apply g.view := by
  induction ids generalizing g with
  | nil => rw [List.foldl_nil,dropping_nil]
  | cons id rest ih => rw [List.foldl_cons,ih,view_remove_edges_by_fact_as,← dropping_cons]

theorem view_remove_edge_by_id_as (g : MemoryGraph) (edge_id : Int) (distinct : (g.view.map GraphEdgeSnapshot.edge_id).Nodup) :
    (g.remove_edge_by_id edge_id).view = (droppingEdge edge_id).apply g.view := by
  rw [view_remove_edge_by_id g edge_id distinct,droppingEdge_apply]

end MemoryGraph
end MemoryEngine
