import MemoryEngine.LabelledGraph
import MemoryEngine.MemoryGraph

/-! The in-memory graph against the labelled multigraph it stands for. Positions move with
every removal; the multigraph knows facts and edges only. -/

namespace MemoryEngine.MemoryGraph
open IndexedGraph LabelledGraph

def arrow (e : GraphEdgeSnapshot) : Arrow FactId EdgeData := ⟨e.source,e.target,⟨e.edge_id,e.relation_type,e.weight⟩⟩

/-- One operation of the graph. -/
def apply (g : MemoryGraph) : Op FactId EdgeData Int → MemoryGraph
  | .add source target data => g.add_edge source target data
  | .remove edge_id => g.remove_edge_by_id edge_id
  | .isolate fact_id => g.remove_edges_by_fact fact_id
  | .delete fact_id => g.remove_node fact_id

theorem has_node_iff (g : MemoryGraph) (id : FactId) : g.has_node id = true ↔ id ∈ g.graph.nodes := by
  rw [has_node,Option.isSome_iff_exists,List.mem_iff_getElem?]
  exact exists_congr fun i => g.indexed id i

theorem nodes_nodup (g : MemoryGraph) : g.graph.nodes.Nodup := by
  rw [List.nodup_iff_injective_getElem]
  intro i j same
  have left := List.getElem?_eq_getElem i.isLt
  have right := List.getElem?_eq_getElem j.isLt
  have equal : g.graph.nodes[i.val] = g.graph.nodes[j.val] := same
  rw [← equal] at right
  exact Fin.ext (g.indexed.unique left right)

theorem mem_view {g : MemoryGraph} {e : GraphEdgeSnapshot} : e ∈ g.view ↔ ∃ arc ∈ g.graph.arcs, labelled g.graph.nodes arc = e :=
  List.mem_map

theorem ends_mem (g : MemoryGraph) {e : GraphEdgeSnapshot} (member : e ∈ g.view) : e.source ∈ g.graph.nodes ∧ e.target ∈ g.graph.nodes := by
  obtain ⟨arc,held,rfl⟩ := mem_view.mp member
  obtain ⟨left,right⟩ := g.graph.joined arc held
  constructor
  · rw [labelled,List.getElem?_eq_getElem left]
    exact List.getElem_mem left
  · rw [labelled,List.getElem?_eq_getElem right]
    exact List.getElem_mem right

/-- What the graph stands for. -/
def multigraph (g : MemoryGraph) : Multigraph FactId EdgeData where
  nodes := {id | g.has_node id = true}
  arrows := g.view.map arrow
  closed := by
    intro a member
    obtain ⟨e,held,rfl⟩ := Multiset.mem_map.mp member
    obtain ⟨left,right⟩ := g.ends_mem held
    exact ⟨(g.has_node_iff _).mpr left,(g.has_node_iff _).mpr right⟩

theorem touches_iff (e : GraphEdgeSnapshot) (id : FactId) : (arrow e).Touches id ↔ e.touches id = true := by
  simp [Arrow.Touches,arrow,GraphEdgeSnapshot.touches]

theorem filter_arrows (edges : Multiset GraphEdgeSnapshot) (id : FactId) :
    (edges.map arrow).filter (fun a => ¬ a.Touches id) = (edges.filter (fun e => e.touches id = false)).map arrow := by
  rw [Multiset.filter_map]
  congr 1
  refine Multiset.filter_congr fun e _ => ?_
  simp [touches_iff]

theorem mem_ensure_node (g : MemoryGraph) (fact_id id : FactId) :
    id ∈ (g.ensure_node fact_id).1.graph.nodes ↔ id = fact_id ∨ id ∈ g.graph.nodes := by
  unfold ensure_node
  split
  · rename_i i found
    have held : fact_id ∈ g.graph.nodes := List.mem_of_getElem? ((g.indexed fact_id i).mp found)
    constructor
    · exact .inr
    · rintro (rfl | old)
      · exact held
      · exact old
  · simp [DiGraph.add_node,or_comm]

theorem has_node_add_edge (g : MemoryGraph) (source target id : FactId) (data : EdgeData) :
    (g.add_edge source target data).has_node id = true ↔ id = source ∨ id = target ∨ g.has_node id = true := by
  rw [has_node_iff,has_node_iff]
  change id ∈ ((g.ensure_node source).1.ensure_node target).1.graph.nodes ↔ _
  rw [mem_ensure_node,mem_ensure_node]
  tauto

theorem has_node_remove_node (g : MemoryGraph) (fact_id id : FactId) :
    (g.remove_node fact_id).has_node id = true ↔ g.has_node id = true ∧ id ≠ fact_id := by
  rw [has_node_iff,has_node_iff]
  unfold remove_node
  split
  · rename_i absent
    constructor
    · intro held
      refine ⟨held,?_⟩
      rintro rfl
      have there := (g.has_node_iff id).mpr held
      rw [has_node,absent] at there
      cases there
    · exact And.left
  · rename_i idx found
    have inside := g.indexed.inside found
    have taken := swapRemove_perm g.graph.nodes idx inside
    have here : g.graph.nodes[idx] = fact_id := (List.getElem?_eq_some_iff.mp ((g.indexed fact_id idx).mp found)).2
    rw [here] at taken
    have apart := (List.nodup_cons.mp (taken.nodup_iff.mpr g.nodes_nodup)).1
    change id ∈ swapRemove g.graph.nodes idx ↔ _
    rw [← taken.mem_iff,List.mem_cons]
    constructor
    · intro held
      refine ⟨.inr held,?_⟩
      rintro rfl
      exact apart held
    · rintro ⟨same | held,away⟩
      · exact absurd same away
      · exact held

/-- An operation of the code is a step of the multigraph. -/
theorem step_apply (g : MemoryGraph) (op : Op FactId EdgeData Int) :
    Multigraph.Step EdgeData.edge_id g.multigraph op (g.apply op).multigraph := by
  cases op with
  | add source target data =>
    have grown : (g.add_edge source target data).multigraph = g.multigraph.add source target data := by
      refine Multigraph.ext (Set.ext fun id => ?_) ?_
      · exact has_node_add_edge g source target id data
      · change (g.add_edge source target data).view.map arrow = _ ::ₘ g.view.map arrow
        rw [view_add_edge,Multiset.map_cons]
        rfl
    rw [apply,grown]
    exact .add source target data
  | remove edge_id =>
    rw [apply]
    rcases view_remove_edge_by_id_cases g edge_id with ⟨taken,rfl,split⟩ | ⟨absent,unchanged⟩
    · have held : g.multigraph.arrows = arrow taken ::ₘ (g.remove_edge_by_id taken.edge_id).view.map arrow := by
        rw [← Multiset.map_cons,← split]
        rfl
      have shrunk : (g.remove_edge_by_id taken.edge_id).multigraph = g.multigraph.remove (arrow taken) _ held := by
        refine Multigraph.ext (Set.ext fun id => ?_) rfl
        change (g.remove_edge_by_id taken.edge_id).has_node id = true ↔ g.has_node id = true
        rw [has_node,has_node]
        unfold remove_edge_by_id
        split <;> exact Iff.rfl
      rw [shrunk]
      exact .remove (arrow taken) _ held
    · rw [unchanged]
      refine .missing edge_id fun a member => ?_
      have listed : a ∈ g.view.map arrow := member
      obtain ⟨e,held,rfl⟩ := Multiset.mem_map.mp listed
      exact absent e held
  | isolate fact_id =>
    have cut : (g.remove_edges_by_fact fact_id).multigraph = g.multigraph.isolate fact_id := by
      refine Multigraph.ext (Set.ext fun id => ?_) ?_
      · change (g.remove_edges_by_fact fact_id).has_node id = true ↔ g.has_node id = true
        rw [has_node,has_node]
        unfold remove_edges_by_fact
        split <;> exact Iff.rfl
      · change (g.remove_edges_by_fact fact_id).view.map arrow = (g.view.map arrow).filter _
        rw [view_remove_edges_by_fact,filter_arrows]
    rw [apply,cut]
    exact .isolate fact_id
  | delete fact_id =>
    have cut : (g.remove_node fact_id).multigraph = g.multigraph.delete fact_id := by
      refine Multigraph.ext (Set.ext fun id => ?_) ?_
      · exact has_node_remove_node g fact_id id
      · change (g.remove_node fact_id).view.map arrow = (g.view.map arrow).filter _
        rw [view_remove_node,filter_arrows]
    rw [apply,cut]
    exact .delete fact_id

theorem run_apply (g : MemoryGraph) (ops : List (Op FactId EdgeData Int)) :
    Multigraph.Run EdgeData.edge_id g.multigraph ops (ops.foldl apply g).multigraph := by
  induction ops generalizing g with
  | nil => rfl
  | cons op rest ih => exact ⟨_,g.step_apply op,ih (g.apply op)⟩

/-- What the positions say of one end of the arcs, in terms of facts. -/
theorem filter_ends {g : MemoryGraph} {fact_id : FactId} {idx : Nat} (found : g.node_map fact_id = some idx)
    (near far : Arc EdgeData → Nat) (near' far' : GraphEdgeSnapshot → FactId)
    (nearLabel : ∀ arc, near' (labelled g.graph.nodes arc) = g.graph.nodes[near arc]?.getD 0)
    (farLabel : ∀ arc, far' (labelled g.graph.nodes arc) = g.graph.nodes[far arc]?.getD 0)
    (inside : ∀ arc ∈ g.graph.arcs, near arc < g.graph.nodes.length) :
    ((g.graph.arcs.filter (fun arc => near arc == idx)).map far).map (fun ni => g.graph.nodes[ni]?.getD 0) =
      (g.to_snapshot.filter (fun e => near' e = fact_id)).map far' := by
  rw [to_snapshot,List.filter_map,List.map_map,List.map_map]
  have picked : g.graph.arcs.filter ((fun e => decide (near' e = fact_id)) ∘ labelled g.graph.nodes) =
      g.graph.arcs.filter (fun arc => near arc == idx) := by
    refine List.filter_congr fun arc member => ?_
    rw [Function.comp_apply,nearLabel,← label_beq g found (inside arc member)]
    rfl
  rw [picked]
  exact List.map_congr_left fun arc _ => (farLabel arc).symm

theorem filter_ends_absent {g : MemoryGraph} {fact_id : FactId} (absent : g.node_map fact_id = none) :
    (∀ e ∈ g.view, e.source ≠ fact_id) ∧ ∀ e ∈ g.view, e.target ≠ fact_id := by
  have away : ∀ e ∈ g.view, e.touches fact_id = false := by
    intro e member
    obtain ⟨arc,held,rfl⟩ := mem_view.mp member
    exact touches_absent g absent held
  simp only [GraphEdgeSnapshot.touches,Bool.or_eq_false_iff,beq_eq_false_iff_ne] at away
  exact ⟨fun e member => (away e member).1,fun e member => (away e member).2⟩

theorem successors_eq (g : MemoryGraph) (fact_id : FactId) :
    g.multigraph.successors fact_id = (g.view.filter (fun e => e.source = fact_id)).map GraphEdgeSnapshot.target := by
  change (((g.view.map arrow).filter _).map _) = _
  rw [Multiset.filter_map,Multiset.map_map]
  rfl

theorem predecessors_eq (g : MemoryGraph) (fact_id : FactId) :
    g.multigraph.predecessors fact_id = (g.view.filter (fun e => e.target = fact_id)).map GraphEdgeSnapshot.source := by
  change (((g.view.map arrow).filter _).map _) = _
  rw [Multiset.filter_map,Multiset.map_map]
  rfl

/-- The facts that the outgoing edges reach, or that the incoming edges come from. -/
theorem ends_eq (g : MemoryGraph) (fact_id : FactId) :
    (∀ idx, g.node_map fact_id = some idx →
      (((g.graph.neighbors_outgoing idx).map fun ni => g.graph.nodes[ni]?.getD 0 : List FactId) : Multiset FactId) = g.multigraph.successors fact_id ∧
        (((g.graph.neighbors_incoming idx).map fun ni => g.graph.nodes[ni]?.getD 0 : List FactId) : Multiset FactId) =
          g.multigraph.predecessors fact_id) ∧
      (g.node_map fact_id = none → g.multigraph.successors fact_id = 0 ∧ g.multigraph.predecessors fact_id = 0) := by
  rw [successors_eq,predecessors_eq]
  constructor
  · intro idx found
    rw [view,Multiset.filter_coe,Multiset.map_coe,Multiset.filter_coe,Multiset.map_coe]
    constructor
    · rw [DiGraph.neighbors_outgoing,filter_ends found Arc.source Arc.target GraphEdgeSnapshot.source GraphEdgeSnapshot.target
        (fun _ => rfl) (fun _ => rfl) fun arc member => (g.graph.joined arc member).1]
    · rw [DiGraph.neighbors_incoming,filter_ends found Arc.target Arc.source GraphEdgeSnapshot.target GraphEdgeSnapshot.source
        (fun _ => rfl) (fun _ => rfl) fun arc member => (g.graph.joined arc member).2]
  · intro absent
    obtain ⟨left,right⟩ := filter_ends_absent absent
    rw [Multiset.filter_eq_nil.mpr left,Multiset.filter_eq_nil.mpr right]
    exact ⟨rfl,rfl⟩

theorem neighbors_eq (g : MemoryGraph) (fact_id : FactId) : (g.neighbors fact_id : Multiset FactId) = g.multigraph.successors fact_id := by
  obtain ⟨present,missing⟩ := g.ends_eq fact_id
  unfold neighbors
  split
  · rename_i absent
    exact (missing absent).1.symm
  · rename_i idx found
    exact (present idx found).1

theorem nodup_eraseDups {α : Type} [BEq α] [LawfulBEq α] (items : List α) : items.eraseDups.Nodup := by
  induction size : items.length using Nat.strong_induction_on generalizing items with
  | _ n ih =>
    cases items with
    | nil => exact List.nodup_nil
    | cons item rest =>
      rw [List.eraseDups_cons]
      have shorter : (rest.filter fun b => !b == item).length < n := by
        have part := List.length_filter_le (fun b => !b == item) rest
        rw [List.length_cons] at size
        omega
      refine List.nodup_cons.mpr ⟨fun again => ?_,ih _ shorter _ rfl⟩
      have kept := (List.mem_filter.mp (List.mem_eraseDups.mp again)).2
      simp at kept

theorem neighbors_undirected_eq (g : MemoryGraph) (fact_id : FactId) : (g.neighbors_undirected fact_id).Nodup ∧
    ∀ id, id ∈ g.neighbors_undirected fact_id ↔ g.multigraph.Adjacent fact_id id := by
  obtain ⟨present,missing⟩ := g.ends_eq fact_id
  unfold neighbors_undirected Multigraph.Adjacent
  split
  · rename_i absent
    obtain ⟨left,right⟩ := missing absent
    rw [left,right]
    exact ⟨List.nodup_nil,by simp⟩
  · rename_i idx found
    obtain ⟨left,right⟩ := present idx found
    refine ⟨nodup_eraseDups _,fun id => ?_⟩
    rw [List.mem_eraseDups,List.mem_filter,List.map_append,List.mem_append,← left,← right,Multiset.mem_coe,Multiset.mem_coe,and_comm]
    simp

theorem length_positions (arcs : List (Arc EdgeData)) (sel : Arc EdgeData → Bool) :
    ((List.range arcs.length).filter (fun i => arcs[i]?.any sel)).length = (arcs.filter sel).length := by
  induction arcs using List.reverseRecOn with
  | nil => rfl
  | append_singleton front last ih =>
    rw [List.length_append,List.length_singleton,List.range_succ,List.filter_append,List.filter_append,List.length_append,
      List.length_append]
    have before : (List.range front.length).filter (fun i => (front ++ [last])[i]?.any sel) =
        (List.range front.length).filter (fun i => front[i]?.any sel) := by
      refine List.filter_congr fun i inside => ?_
      rw [List.getElem?_append_left (List.mem_range.mp inside)]
    rw [before,ih]
    by_cases chosen : sel last = true <;> simp [chosen]

theorem degree_eq (g : MemoryGraph) (fact_id : FactId) : g.degree fact_id = g.multigraph.degree fact_id := by
  obtain ⟨present,missing⟩ := g.ends_eq fact_id
  unfold degree Multigraph.degree
  split
  · rename_i absent
    obtain ⟨left,right⟩ := missing absent
    rw [left,right]
    rfl
  · rename_i idx found
    obtain ⟨left,right⟩ := present idx found
    rw [← left,← right,DiGraph.edges_outgoing,DiGraph.edges_incoming,length_positions,length_positions]
    simp [DiGraph.neighbors_outgoing,DiGraph.neighbors_incoming]

/-- After any operations the map of positions is a bijection between facts and nodes, and the
    graph shows the same facts, edges, neighbours and degrees as a multigraph on which the same
    operations were performed; there is only one such multigraph when edge ids are distinct. -/
theorem refines_run (ops : List (Op FactId EdgeData Int)) : ∃ G : Multigraph FactId EdgeData,
    Multigraph.Run EdgeData.edge_id Multigraph.empty ops G ∧
      ((Multigraph.added EdgeData.edge_id ops).Nodup → ∀ G', Multigraph.Run EdgeData.edge_id Multigraph.empty ops G' → G' = G) ∧
      (∀ id i, (ops.foldl apply new).node_map id = some i ↔ (ops.foldl apply new).graph.nodes[i]? = some id) ∧
      (∀ id, (ops.foldl apply new).has_node id = true ↔ id ∈ G.nodes) ∧
      (ops.foldl apply new).view.map arrow = G.arrows ∧
      ∀ id, ((ops.foldl apply new).neighbors id : Multiset FactId) = G.successors id ∧
        (ops.foldl apply new).degree id = G.degree id ∧ ((ops.foldl apply new).neighbors_undirected id).Nodup ∧
          ∀ other, other ∈ (ops.foldl apply new).neighbors_undirected id ↔ G.Adjacent id other := by
  have start : new.multigraph = Multigraph.empty := by
    refine Multigraph.ext (Set.ext fun id => ?_) rfl
    simp [multigraph,has_node,new,Multigraph.empty]
  have run := new.run_apply ops
  rw [start] at run
  refine ⟨_,run,fun distinct G' other => ?_,(ops.foldl apply new).indexed,fun id => Iff.rfl,rfl,fun id => ?_⟩
  · refine Multigraph.Run.functional ?_ run other
    change (0 + (Multigraph.added EdgeData.edge_id ops : Multiset Int)).Nodup
    rw [Multiset.zero_add]
    exact Multiset.coe_nodup.mpr distinct
  · obtain ⟨single,reached⟩ := neighbors_undirected_eq (ops.foldl apply new) id
    exact ⟨neighbors_eq _ id,degree_eq _ id,single,reached⟩

end MemoryEngine.MemoryGraph
