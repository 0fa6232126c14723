import MemoryEngine.GraphSearch
import MemoryEngine.IndexedGraph
import MemoryEngine.Types
import Mathlib.Data.Finset.Basic

/-! The in-memory projection of the active edges. Every primitive is described
by what it does to the multiset of labelled edges; node positions and the map
from fact ids to positions stay behind that view. -/

namespace MemoryEngine
open KeyedTable IndexedGraph

structure EdgeData where
  edge_id : Int
  relation_type : RelationType
  weight : F64
deriving DecidableEq

/-- One edge with the fact ids of its ends, as the sidecar stores it. -/
structure GraphEdgeSnapshot where
  edge_id : Int
  source : FactId
  target : FactId
  relation_type : RelationType
  weight : F64
deriving DecidableEq

/-- The edge touches the fact. -/
def GraphEdgeSnapshot.touches (e : GraphEdgeSnapshot) (fact_id : FactId) : Bool :=
  e.source == fact_id || e.target == fact_id

/-- The `edge_id`, `source` and `target` of an edge. -/
def GraphEdgeSnapshot.triple (e : GraphEdgeSnapshot) : Int × FactId × FactId := (e.edge_id,e.source,e.target)

def Edge.snapshot (e : Edge) : GraphEdgeSnapshot :=
  ⟨e.id,e.source_fact_id,e.target_fact_id,e.relation_type,.num e.weight⟩

/-- The graph with the map from fact ids to node positions. The map holds
    exactly the positions of the nodes, so no fact has two nodes. -/
structure MemoryGraph where
  graph : DiGraph FactId EdgeData
  node_map : FactId → Option Nat
  indexed : Indexes node_map graph.nodes

namespace MemoryGraph

def new : MemoryGraph := ⟨DiGraph.new,fun _ => none,by simp [Indexes,DiGraph.new]⟩

def has_node (g : MemoryGraph) (fact_id : FactId) : Bool := (g.node_map fact_id).isSome

/-- The position of the fact's node, which is added when missing. -/
def ensure_node (g : MemoryGraph) (fact_id : FactId) : MemoryGraph × Nat :=
  match found : g.node_map fact_id with
  | some i => (g,i)
  | none =>
    ({ graph := g.graph.add_node fact_id
       node_map := fun id => if id = fact_id then some g.graph.nodes.length else g.node_map id
       indexed := g.indexed.append fact_id found },
     g.graph.nodes.length)

theorem ensure_node_maps (g : MemoryGraph) (fact_id : FactId) :
    (g.ensure_node fact_id).1.node_map fact_id = some (g.ensure_node fact_id).2 := by
  unfold ensure_node
  split
  · assumption
  · simp

theorem ensure_node_keeps (g : MemoryGraph) (fact_id : FactId) {id : FactId} {i : Nat} (found : g.node_map id = some i) :
    (g.ensure_node fact_id).1.node_map id = some i := by
  unfold ensure_node
  split
  · exact found
  · rename_i absent
    have apart : id ≠ fact_id := by
      rintro rfl
      rw [absent] at found
      cases found
    simp [apart,found]

theorem ensure_node_arcs (g : MemoryGraph) (fact_id : FactId) :
    (g.ensure_node fact_id).1.graph.arcs = g.graph.arcs := by
  unfold ensure_node
  split <;> rfl

theorem ensure_node_nodes (g : MemoryGraph) (fact_id : FactId) {i : Nat} (inside : i < g.graph.nodes.length) :
    (g.ensure_node fact_id).1.graph.nodes[i]? = g.graph.nodes[i]? := by
  unfold ensure_node
  split
  · rfl
  · exact List.getElem?_append_left inside

def add_edge (g : MemoryGraph) (source target : FactId) (data : EdgeData) : MemoryGraph :=
  let s := g.ensure_node source
  let t := s.1.ensure_node target
  { graph := t.1.graph.add_edge s.2 t.2 data
      ⟨t.1.indexed.inside (ensure_node_keeps s.1 target (ensure_node_maps g source)),
        t.1.indexed.inside (ensure_node_maps s.1 target)⟩
    node_map := t.1.node_map
    indexed := t.1.indexed }

def remove_edge_by_id (g : MemoryGraph) (edge_id : Int) : MemoryGraph :=
  match g.graph.arcs.findIdx? (fun arc => arc.weight.edge_id == edge_id) with
  | some ei => ⟨g.graph.remove_edge ei,g.node_map,g.indexed⟩
  | none => g

/-- Remove a node with its edges. The former last node takes the freed position,
    so its entry of the map is rewritten. -/
def remove_node (g : MemoryGraph) (fact_id : FactId) : MemoryGraph :=
  match found : g.node_map fact_id with
  | none => g
  | some idx =>
    let graph := g.graph.remove_node idx (g.indexed.inside found)
    { graph := graph
      node_map := fun id => if graph.nodes[idx]? = some id then some idx else if id = fact_id then none else g.node_map id
      indexed := g.indexed.swapRemove found }

def remove_edges_by_fact (g : MemoryGraph) (fact_id : FactId) : MemoryGraph :=
  match g.node_map fact_id with
  | none => g
  | some idx =>
    { graph := g.graph.remove_edges (g.graph.edges_outgoing idx ++ g.graph.edges_incoming idx)
      node_map := g.node_map
      indexed := by
        rw [DiGraph.remove_edges_nodes]
        exact g.indexed }

def add_edges_from_iter (g : MemoryGraph) (source target : FactId) (edge_id : Int) (relation_type : RelationType)
    (weight : F64) : MemoryGraph :=
  g.add_edge source target ⟨edge_id,relation_type,weight⟩

def from_active_edges (active_edges : List Edge) : MemoryGraph :=
  active_edges.foldl (fun graph edge =>
    graph.add_edges_from_iter edge.source_fact_id edge.target_fact_id edge.id edge.relation_type (.num edge.weight)) new

/-- An arc with its positions replaced by the fact ids that label them. -/
def labelled (nodes : List FactId) (arc : Arc EdgeData) : GraphEdgeSnapshot :=
  ⟨arc.weight.edge_id,nodes[arc.source]?.getD 0,nodes[arc.target]?.getD 0,arc.weight.relation_type,arc.weight.weight⟩

def to_snapshot (g : MemoryGraph) : List GraphEdgeSnapshot := g.graph.arcs.map (labelled g.graph.nodes)

/-- Total degree, a self loop counting twice. -/
def degree (g : MemoryGraph) (fact_id : FactId) : Nat :=
  match g.node_map fact_id with
  | none => 0
  | some idx => (g.graph.edges_outgoing idx).length + (g.graph.edges_incoming idx).length

/-- The ends of the outgoing edges, one for each edge; petgraph lists the newest edge first. -/
def neighbors (g : MemoryGraph) (fact_id : FactId) : List FactId :=
  match g.node_map fact_id with
  | none => []
  | some idx => (g.graph.neighbors_outgoing idx).map (fun ni => g.graph.nodes[ni]?.getD 0)

/-- The other facts one edge away in either direction, each at its first occurrence. -/
def neighbors_undirected (g : MemoryGraph) (fact_id : FactId) : List FactId :=
  match g.node_map fact_id with
  | none => []
  | some idx =>
    (((g.graph.neighbors_outgoing idx ++ g.graph.neighbors_incoming idx).map (fun ni => g.graph.nodes[ni]?.getD 0)).filter
      (fun id => id != fact_id)).eraseDups

/-- The facts connected to a fact, both directions of an edge counting. The source collects
    them from a set, which gives them in an order of its own. -/
def connected_component (g : MemoryGraph) (fuel : Nat) (fact_id : FactId) : Option (List FactId) :=
  match g.node_map fact_id with
  | none => some []
  | some start =>
    (GraphSearch.spread (fun node => g.graph.neighbors_outgoing node ++ g.graph.neighbors_incoming node) fuel ⟨[start],[start]⟩).map
      fun visited => visited.map fun ni => g.graph.nodes[ni]?.getD 0

def MAX_SNAPSHOT_EDGES : Nat := 50000000

def check_edge_count_bound (count : Nat) : Except MemoryError Unit :=
  if count > MAX_SNAPSHOT_EDGES then .error (.Internal
    s!"snapshot edge count {count} exceeds the maximum of {MAX_SNAPSHOT_EDGES}; discarding sidecar and rebuilding from the database")
  else .ok ()

/-- Check an edge of a snapshot and add it. -/
def restore_edge (existing_fact_ids : Finset FactId) (graph : MemoryGraph) (edge : GraphEdgeSnapshot) : Except MemoryError MemoryGraph :=
  if edge.source ≤ 0 ∨ edge.target ≤ 0 ∨ edge.edge_id ≤ 0 then .error (.Internal
    (s!"snapshot edge {edge.edge_id} carries a non-positive rowid (source={edge.source}, target={edge.target}, " ++
      s!"edge_id={edge.edge_id}); discarding sidecar and rebuilding from the database")) else
  if edge.source ∉ existing_fact_ids ∨ edge.target ∉ existing_fact_ids then .error (.Internal
    (s!"snapshot edge {edge.edge_id} references a fact id absent from the existing-fact set (source={edge.source}, " ++
      s!"target={edge.target}); discarding sidecar and rebuilding from the database")) else
  .ok (graph.add_edges_from_iter edge.source edge.target edge.edge_id edge.relation_type edge.weight)

/-- Rebuild the graph from the edges of a snapshot, which nobody vouches for. -/
def from_snapshot (edges : List GraphEdgeSnapshot) (existing_fact_ids : Finset FactId) : Except MemoryError MemoryGraph := do
  check_edge_count_bound edges.length
  edges.foldlM (restore_edge existing_fact_ids) new

/-- The multiset of edges the graph holds. -/
def view (g : MemoryGraph) : Multiset GraphEdgeSnapshot := g.to_snapshot

/-- The multiset of `(edge_id, source, target)` the graph holds. -/
def edgeTriples (g : MemoryGraph) : Multiset (Int × FactId × FactId) := g.view.map GraphEdgeSnapshot.triple

@[simp] theorem view_new : new.view = 0 := rfl

theorem labelled_congr {nodes nodes' : List FactId} {arc : Arc EdgeData}
    (source : nodes[arc.source]? = nodes'[arc.source]?) (target : nodes[arc.target]? = nodes'[arc.target]?) :
    labelled nodes arc = labelled nodes' arc := by
  simp only [labelled,source,target]

theorem view_add_edge (g : MemoryGraph) (source target : FactId) (data : EdgeData) :
    (g.add_edge source target data).view =
      ⟨data.edge_id,source,target,data.relation_type,data.weight⟩ ::ₘ g.view := by
  have sourceAt := ensure_node_keeps (g.ensure_node source).1 target (ensure_node_maps g source)
  have targetAt := ensure_node_maps (g.ensure_node source).1 target
  have grown : (g.ensure_node source).1.graph.nodes.length ≥ g.graph.nodes.length := by
    unfold ensure_node
    split
    · exact Nat.le_refl _
    · simp [DiGraph.add_node]
  have joined : labelled ((g.ensure_node source).1.ensure_node target).1.graph.nodes
      ⟨(g.ensure_node source).2,((g.ensure_node source).1.ensure_node target).2,data⟩ =
      ⟨data.edge_id,source,target,data.relation_type,data.weight⟩ := by
    have first := (((g.ensure_node source).1.ensure_node target).1.indexed _ _).mp sourceAt
    have second := (((g.ensure_node source).1.ensure_node target).1.indexed _ _).mp targetAt
    simp only [labelled,first,second,Option.getD_some]
  have kept : g.graph.arcs.map (labelled ((g.ensure_node source).1.ensure_node target).1.graph.nodes) =
      g.to_snapshot := by
    refine List.map_congr_left fun arc member => ?_
    obtain ⟨left,right⟩ := g.graph.joined arc member
    refine labelled_congr ?_ ?_
    · rw [ensure_node_nodes _ _ (by omega),ensure_node_nodes _ _ left]
    · rw [ensure_node_nodes _ _ (by omega),ensure_node_nodes _ _ right]
  have appended : (g.add_edge source target data).to_snapshot =
      g.to_snapshot ++ [⟨data.edge_id,source,target,data.relation_type,data.weight⟩] := by
    rw [← joined,← kept]
    simp only [to_snapshot,add_edge,DiGraph.add_edge,ensure_node_arcs,List.map_append,List.map_cons,List.map_nil]
  rw [view,appended]
  exact Multiset.coe_eq_coe.mpr (List.perm_append_singleton _ _)

theorem label_beq (g : MemoryGraph) {fact_id : FactId} {idx j : Nat} (found : g.node_map fact_id = some idx)
    (inside : j < g.graph.nodes.length) : (g.graph.nodes[j]?.getD 0 == fact_id) = (j == idx) := by
  have here := (g.indexed fact_id idx).mp found
  rw [List.getElem?_eq_getElem inside,Option.getD_some,Bool.eq_iff_iff,beq_iff_eq,beq_iff_eq]
  constructor
  · rintro rfl
    exact g.indexed.unique (List.getElem?_eq_getElem inside) here
  · rintro rfl
    exact (List.getElem?_eq_some_iff.mp here).2

theorem label_beq_absent (g : MemoryGraph) {fact_id : FactId} {j : Nat} (absent : g.node_map fact_id = none)
    (inside : j < g.graph.nodes.length) : (g.graph.nodes[j]?.getD 0 == fact_id) = false := by
  rw [List.getElem?_eq_getElem inside,Option.getD_some,beq_eq_false_iff_ne]
  rintro rfl
  rw [(g.indexed _ j).mpr (List.getElem?_eq_getElem inside)] at absent
  cases absent

theorem touches_labelled (g : MemoryGraph) {fact_id : FactId} {idx : Nat} (found : g.node_map fact_id = some idx)
    {arc : Arc EdgeData} (member : arc ∈ g.graph.arcs) :
    (labelled g.graph.nodes arc).touches fact_id = (arc.source == idx || arc.target == idx) := by
  obtain ⟨left,right⟩ := g.graph.joined arc member
  simp only [GraphEdgeSnapshot.touches,labelled,label_beq g found left,label_beq g found right]

theorem touches_absent (g : MemoryGraph) {fact_id : FactId} (absent : g.node_map fact_id = none)
    {arc : Arc EdgeData} (member : arc ∈ g.graph.arcs) : (labelled g.graph.nodes arc).touches fact_id = false := by
  obtain ⟨left,right⟩ := g.graph.joined arc member
  simp only [GraphEdgeSnapshot.touches,labelled,label_beq_absent g absent left,label_beq_absent g absent right,Bool.or_false]

private theorem view_untouched (g : MemoryGraph) {fact_id : FactId} (absent : g.node_map fact_id = none) :
    g.view = g.view.filter (fun e => e.touches fact_id = false) := by
  refine (Multiset.filter_eq_self.mpr fun e member => ?_).symm
  obtain ⟨arc,held,rfl⟩ := List.mem_map.mp (Multiset.mem_coe.mp member)
  exact touches_absent g absent held

private theorem filter_labelled (g : MemoryGraph) {fact_id : FactId} {idx : Nat} (found : g.node_map fact_id = some idx) :
    g.to_snapshot.filter (fun e => e.touches fact_id = false) =
      (g.graph.arcs.filter (fun arc => !(arc.source == idx || arc.target == idx))).map (labelled g.graph.nodes) := by
  rw [to_snapshot,List.filter_map]
  congr 1
  refine List.filter_congr fun arc member => ?_
  simp only [Function.comp_apply,touches_labelled g found member]
  cases arc.source == idx || arc.target == idx <;> rfl

/-- Removing the edges of a fact keeps exactly the edges that do not touch it. -/
theorem view_remove_edges_by_fact (g : MemoryGraph) (fact_id : FactId) :
    (g.remove_edges_by_fact fact_id).view = g.view.filter (fun e => e.touches fact_id = false) := by
  unfold remove_edges_by_fact
  split
  · rename_i absent
    exact view_untouched g absent
  · rename_i idx found
    have kept := (g.graph.remove_incident_perm idx).map (labelled g.graph.nodes)
    rw [← filter_labelled g found] at kept
    rw [view,view,Multiset.filter_coe]
    refine Multiset.coe_eq_coe.mpr ?_
    simpa only [to_snapshot,DiGraph.remove_edges_nodes] using kept

/-- Removing a node acts on the edges like removing the edges of its fact. -/
theorem view_remove_node (g : MemoryGraph) (fact_id : FactId) :
    (g.remove_node fact_id).view = g.view.filter (fun e => e.touches fact_id = false) := by
  unfold remove_node
  split
  · rename_i absent
    exact view_untouched g absent
  · rename_i idx found
    have inside := g.indexed.inside found
    have moved : ∀ j : Nat, j < g.graph.nodes.length → j ≠ idx →
        (swapRemove g.graph.nodes idx)[if j = g.graph.nodes.length - 1 then idx else j]? = g.graph.nodes[j]? := by
      intro j within apart
      rw [swapRemove_getElem? _ _ _ inside]
      by_cases last : j = g.graph.nodes.length - 1
      · rw [if_pos last,if_pos (by omega),if_pos rfl,last]
      · rw [if_neg last,if_pos (by omega),if_neg apart]
    have stay := g.graph.remove_incident_perm idx
    have kept := stay.map (labelled g.graph.nodes)
    rw [← filter_labelled g found] at kept
    rw [view,view,Multiset.filter_coe]
    refine Multiset.coe_eq_coe.mpr (List.Perm.trans (List.Perm.of_eq ?_) kept)
    simp only [to_snapshot,DiGraph.remove_node,List.map_map]
    refine List.map_congr_left fun arc member => ?_
    obtain ⟨held,apart⟩ := List.mem_filter.mp (stay.mem_iff.mp member)
    obtain ⟨left,right⟩ := g.graph.joined arc held
    simp only [Bool.not_eq_true',Bool.or_eq_false_iff,beq_eq_false_iff_ne] at apart
    simp only [Function.comp_apply,labelled,moved _ left apart.1,moved _ right apart.2]

/-- Removing by id takes one edge of that id, or nothing where there is none. -/
theorem view_remove_edge_by_id_cases (g : MemoryGraph) (edge_id : Int) :
    (∃ e, e.edge_id = edge_id ∧ g.view = e ::ₘ (g.remove_edge_by_id edge_id).view) ∨
      (∀ e ∈ g.view, e.edge_id ≠ edge_id) ∧ g.remove_edge_by_id edge_id = g := by
  unfold remove_edge_by_id
  split
  · rename_i ei found
    obtain ⟨inside,here,_⟩ := List.findIdx?_eq_some_iff_getElem.mp found
    have taken := (swapRemove_perm g.graph.arcs ei inside).map (labelled g.graph.nodes)
    exact .inl ⟨labelled g.graph.nodes g.graph.arcs[ei],by simpa [labelled] using here,(Multiset.coe_eq_coe.mpr taken).symm⟩
  · rename_i absent
    refine .inr ⟨fun e member => ?_,rfl⟩
    obtain ⟨arc,held,rfl⟩ := List.mem_map.mp (Multiset.mem_coe.mp member)
    simpa [labelled] using List.findIdx?_eq_none_iff.mp absent arc held

/-- When edge ids are distinct, removing by id keeps the edges with another id. -/
theorem view_remove_edge_by_id (g : MemoryGraph) (edge_id : Int)
    (distinct : (g.view.map GraphEdgeSnapshot.edge_id).Nodup) :
    (g.remove_edge_by_id edge_id).view = g.view.filter (fun e => e.edge_id ≠ edge_id) := by
  rcases view_remove_edge_by_id_cases g edge_id with ⟨taken,same,split⟩ | ⟨absent,unchanged⟩
  · rw [split,Multiset.map_cons,Multiset.nodup_cons] at distinct
    rw [split,Multiset.filter_cons_of_neg _ (by simpa using same)]
    refine (Multiset.filter_eq_self.mpr fun e member named => ?_).symm
    exact distinct.1 (Multiset.mem_map.mpr ⟨e,member,named.trans same.symm⟩)
  · rw [unchanged]
    exact (Multiset.filter_eq_self.mpr absent).symm

private theorem view_foldl_edges (edges : List Edge) (g : MemoryGraph) :
    (edges.foldl (fun graph edge =>
      graph.add_edges_from_iter edge.source_fact_id edge.target_fact_id edge.id edge.relation_type (.num edge.weight)) g).view =
      g.view + (edges.map Edge.snapshot : Multiset GraphEdgeSnapshot) := by
  induction edges generalizing g with
  | nil => simp
  | cons edge rest ih =>
    rw [List.foldl_cons,ih,add_edges_from_iter,view_add_edge,List.map_cons,← Multiset.cons_coe,
      Multiset.cons_add,Multiset.add_cons]
    rfl

/-- A rebuilt graph holds exactly the edges it was built from. -/
theorem view_from_active_edges (edges : List Edge) :
    (from_active_edges edges).view = (edges.map Edge.snapshot : Multiset GraphEdgeSnapshot) := by
  rw [from_active_edges,view_foldl_edges,view_new,Multiset.zero_add]

end MemoryGraph
end MemoryEngine
