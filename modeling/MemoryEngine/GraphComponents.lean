import MemoryEngine.GraphRefinement

/-! What the graph gives back as a whole: the component of a fact, and the graph that is
rebuilt from the edges it wrote. -/

namespace MemoryEngine.MemoryGraph
open IndexedGraph GraphSearch

/-- An edge joins the two facts, in one direction or the other. -/
def Beside (g : MemoryGraph) (a b : FactId) : Prop :=
  ∃ e ∈ g.view, (e.source = a ∧ e.target = b) ∨ (e.source = b ∧ e.target = a)

def Connected (g : MemoryGraph) : FactId → FactId → Prop := Relation.ReflTransGen g.Beside

/-- The positions that an arc joins to a position. -/
def around (g : MemoryGraph) (node : Nat) : List Nat := g.graph.neighbors_outgoing node ++ g.graph.neighbors_incoming node

theorem mem_around {g : MemoryGraph} {i j : Nat} :
    j ∈ g.around i ↔ ∃ arc ∈ g.graph.arcs, (arc.source = i ∧ arc.target = j) ∨ (arc.source = j ∧ arc.target = i) := by
  simp only [around,DiGraph.neighbors_outgoing,DiGraph.neighbors_incoming,List.mem_append,List.mem_map,List.mem_filter,beq_iff_eq]
  constructor
  · rintro (⟨arc,⟨held,here⟩,there⟩ | ⟨arc,⟨held,here⟩,there⟩)
    · exact ⟨arc,held,.inl ⟨here,there⟩⟩
    · exact ⟨arc,held,.inr ⟨there,here⟩⟩
  · rintro ⟨arc,held,⟨here,there⟩ | ⟨there,here⟩⟩
    · exact .inl ⟨arc,⟨held,here⟩,there⟩
    · exact .inr ⟨arc,⟨held,here⟩,there⟩

theorem around_inside {g : MemoryGraph} {i j : Nat} (near : j ∈ g.around i) : j < g.graph.nodes.length := by
  obtain ⟨arc,held,⟨_,rfl⟩ | ⟨rfl,_⟩⟩ := mem_around.mp near
  · exact (g.graph.joined arc held).2
  · exact (g.graph.joined arc held).1

/-- From one node to the next the labels stand beside each other. -/
theorem beside_of_around {g : MemoryGraph} {i j : Nat} {a : FactId} (labelled : g.graph.nodes[i]? = some a) (near : j ∈ g.around i) :
    ∃ b, g.graph.nodes[j]? = some b ∧ g.Beside a b := by
  have inside := around_inside near
  refine ⟨g.graph.nodes[j],List.getElem?_eq_getElem inside,?_⟩
  obtain ⟨arc,held,⟨rfl,rfl⟩ | ⟨rfl,rfl⟩⟩ := mem_around.mp near
  · exact ⟨_,mem_view.mpr ⟨arc,held,rfl⟩,.inl ⟨by simp [MemoryGraph.labelled,labelled],by simp [MemoryGraph.labelled,inside]⟩⟩
  · exact ⟨_,mem_view.mpr ⟨arc,held,rfl⟩,.inr ⟨by simp [MemoryGraph.labelled,inside],by simp [MemoryGraph.labelled,labelled]⟩⟩

/-- A fact beside a labelled one labels a node around it. -/
theorem around_of_beside {g : MemoryGraph} {i : Nat} {a b : FactId} (labelled : g.graph.nodes[i]? = some a) (beside : g.Beside a b) :
    ∃ j ∈ g.around i, g.graph.nodes[j]? = some b := by
  have found : g.node_map a = some i := (g.indexed a i).mpr labelled
  have named : ∀ j, j < g.graph.nodes.length → g.graph.nodes[j]?.getD 0 = a → j = i := by
    intro j inside same
    have equal := label_beq g found inside
    rw [same,beq_self_eq_true] at equal
    exact beq_iff_eq.mp equal.symm
  have held_at : ∀ j, j < g.graph.nodes.length → g.graph.nodes[j]? = some (g.graph.nodes[j]?.getD 0) := by
    intro j inside
    simp [inside]
  obtain ⟨e,member,ends⟩ := beside
  obtain ⟨arc,held,rfl⟩ := mem_view.mp member
  obtain ⟨left,right⟩ := g.graph.joined arc held
  rcases ends with ⟨here,rfl⟩ | ⟨rfl,here⟩
  · exact ⟨arc.target,mem_around.mpr ⟨arc,held,.inl ⟨named _ left here,rfl⟩⟩,held_at _ right⟩
  · exact ⟨arc.source,mem_around.mpr ⟨arc,held,.inr ⟨rfl,named _ right here⟩⟩,held_at _ left⟩

/-- A search over positions reaches the nodes of the facts that the edges connect. -/
theorem reaches_iff_connected {g : MemoryGraph} {start : Nat} {fact_id : FactId} (labelled : g.graph.nodes[start]? = some fact_id)
    (id : FactId) : (∃ j, Reaches g.around start j ∧ g.graph.nodes[j]? = some id) ↔ g.Connected fact_id id := by
  constructor
  · rintro ⟨j,path,there⟩
    have follows : ∃ b, g.graph.nodes[j]? = some b ∧ g.Connected fact_id b := by
      clear there
      induction path with
      | refl => exact ⟨fact_id,labelled,.refl⟩
      | tail _ near ih =>
        obtain ⟨a,at_,before⟩ := ih
        obtain ⟨b,there,beside⟩ := beside_of_around at_ near
        exact ⟨b,there,before.tail beside⟩
    obtain ⟨b,same,connected⟩ := follows
    rw [there] at same
    cases same
    exact connected
  · intro connected
    induction connected with
    | refl => exact ⟨start,.refl,labelled⟩
    | tail _ beside ih =>
      obtain ⟨i,path,at_⟩ := ih
      obtain ⟨j,near,there⟩ := around_of_beside at_ beside
      exact ⟨j,path.tail near,there⟩

/-- The search for a component ends, with every fact that edges connect to the given one
    listed once; a fact without a node has no component. -/
theorem connected_component_exact (g : MemoryGraph) (fact_id : FactId) : ∃ facts : List FactId,
    (∀ extra, g.connected_component (g.graph.nodes.length + 1 + extra) fact_id = some facts) ∧ facts.Nodup ∧
      ∀ id, id ∈ facts ↔ g.has_node fact_id = true ∧ g.Connected fact_id id := by
  cases found : g.node_map fact_id with
  | none =>
    refine ⟨[],fun extra => by simp [connected_component,found],List.nodup_nil,fun id => ?_⟩
    simp [has_node,found]
  | some start =>
    have labelled := (g.indexed fact_id start).mp found
    have inside : ∀ j, Reaches g.around start j → j < g.graph.nodes.length := by
      intro j path
      induction path with
      | refl => exact g.indexed.inside found
      | tail _ near _ => exact around_inside near
    have enough : (List.range g.graph.nodes.length).length < g.graph.nodes.length + 1 := by simp
    obtain ⟨visited,ended,distinct,exact_⟩ :=
      spread_exact (List.range g.graph.nodes.length) (fun j path => List.mem_range.mpr (inside j path)) enough
    refine ⟨visited.map fun ni => g.graph.nodes[ni]?.getD 0,fun extra => ?_,?_,fun id => ?_⟩
    · have more := spread_more ended extra
      unfold around at more
      simp only [connected_component,found,more,Option.map_some]
    · refine List.Nodup.map_on (fun i member j member' same => ?_) distinct
      have at_ := inside i ((exact_ i).mp member)
      have there := inside j ((exact_ j).mp member')
      rw [List.getElem?_eq_getElem at_,List.getElem?_eq_getElem there] at same
      refine g.indexed.unique (List.getElem?_eq_getElem at_) ?_
      rw [List.getElem?_eq_getElem there]
      exact congrArg some same.symm
    · rw [← reaches_iff_connected labelled,List.mem_map]
      simp only [has_node,found,Option.isSome_some,true_and]
      constructor
      · rintro ⟨j,member,rfl⟩
        have path := (exact_ j).mp member
        exact ⟨j,path,by simp [inside j path]⟩
      · rintro ⟨j,path,there⟩
        exact ⟨j,(exact_ j).mpr path,by rw [there]; rfl⟩

/-- The row ids of an edge can be ones, and its facts exist. -/
structure Admitted (existing_fact_ids : Finset FactId) (e : GraphEdgeSnapshot) : Prop where
  edge_id : 0 < e.edge_id
  positive : 0 < e.source ∧ 0 < e.target
  present : e.source ∈ existing_fact_ids ∧ e.target ∈ existing_fact_ids

theorem restore_edge_cases (existing_fact_ids : Finset FactId) (graph : MemoryGraph) (e : GraphEdgeSnapshot) :
    Admitted existing_fact_ids e ∧ restore_edge existing_fact_ids graph e =
        .ok (graph.add_edges_from_iter e.source e.target e.edge_id e.relation_type e.weight) ∨
      ¬ Admitted existing_fact_ids e ∧ ∃ error, restore_edge existing_fact_ids graph e = .error error := by
  unfold restore_edge
  split
  · rename_i low
    refine .inr ⟨fun admitted => ?_,_,rfl⟩
    rcases low with low | low | low
    · exact absurd low (not_le.mpr admitted.positive.1)
    · exact absurd low (not_le.mpr admitted.positive.2)
    · exact absurd low (not_le.mpr admitted.edge_id)
  · rename_i high
    split
    · rename_i phantom
      refine .inr ⟨fun admitted => ?_,_,rfl⟩
      exact phantom.elim (fun absent => absent admitted.present.1) fun absent => absent admitted.present.2
    · rename_i known
      simp only [not_or,not_le,not_not] at high known
      exact .inl ⟨⟨high.2.2,⟨high.1,high.2.1⟩,known⟩,rfl⟩

/-- The edges are added one by one until one is refused. -/
theorem restore_edges (existing_fact_ids : Finset FactId) (edges : List GraphEdgeSnapshot) (graph : MemoryGraph) :
    (∀ e ∈ edges, Admitted existing_fact_ids e) ∧
        (∃ restored, edges.foldlM (restore_edge existing_fact_ids) graph = .ok restored ∧ restored.view = graph.view + edges) ∨
      (∃ e ∈ edges, ¬ Admitted existing_fact_ids e) ∧ ∃ error, edges.foldlM (restore_edge existing_fact_ids) graph = .error error := by
  induction edges generalizing graph with
  | nil => exact .inl ⟨by simp,graph,rfl,by simp⟩
  | cons e rest ih =>
    rw [List.foldlM_cons]
    rcases restore_edge_cases existing_fact_ids graph e with ⟨admitted,added⟩ | ⟨refused,error,failed⟩
    · rw [added]
      rcases ih (graph.add_edges_from_iter e.source e.target e.edge_id e.relation_type e.weight) with
        ⟨all,restored,whole,shown⟩ | ⟨⟨other,member,refused⟩,error,failed⟩
      · refine .inl ⟨fun x member => ?_,restored,whole,?_⟩
        · rcases List.mem_cons.mp member with rfl | later
          · exact admitted
          · exact all x later
        · rw [shown,add_edges_from_iter,view_add_edge,← Multiset.cons_coe,Multiset.cons_add,Multiset.add_cons]
      · exact .inr ⟨⟨other,List.mem_cons_of_mem _ member,refused⟩,error,failed⟩
    · rw [failed]
      exact .inr ⟨⟨e,List.mem_cons_self,refused⟩,error,rfl⟩

theorem check_edge_count_bound_iff (count : Nat) : check_edge_count_bound count = .ok () ↔ count ≤ MAX_SNAPSHOT_EDGES := by
  unfold check_edge_count_bound
  split
  · rename_i many
    simp
    omega
  · rename_i few
    simp
    omega

/-- A list of edges is accepted as a whole, with exactly its edges in the graph, or refused. -/
theorem from_snapshot_iff (edges : List GraphEdgeSnapshot) (existing_fact_ids : Finset FactId) (restored : MemoryGraph)
    (accepted : from_snapshot edges existing_fact_ids = .ok restored) :
    edges.length ≤ MAX_SNAPSHOT_EDGES ∧ (∀ e ∈ edges, Admitted existing_fact_ids e) ∧ restored.view = (edges : Multiset GraphEdgeSnapshot) := by
  unfold from_snapshot at accepted
  cases bounded : check_edge_count_bound edges.length with
  | error _ =>
    rw [bounded] at accepted
    cases accepted
  | ok _ =>
    rw [bounded] at accepted
    refine ⟨(check_edge_count_bound_iff _).mp bounded,?_⟩
    have folded : edges.foldlM (restore_edge existing_fact_ids) new = .ok restored := accepted
    rcases restore_edges existing_fact_ids edges new with ⟨all,other,whole,shown⟩ | ⟨_,error,failed⟩
    · rw [whole] at folded
      cases folded
      exact ⟨all,by rw [shown,view_new,Multiset.zero_add]⟩
    · rw [failed] at folded
      cases folded

theorem from_snapshot_of_admitted {edges : List GraphEdgeSnapshot} {existing_fact_ids : Finset FactId} (few : edges.length ≤ MAX_SNAPSHOT_EDGES)
    (all : ∀ e ∈ edges, Admitted existing_fact_ids e) : ∃ restored, from_snapshot edges existing_fact_ids = .ok restored := by
  have bounded : check_edge_count_bound edges.length = .ok () := (check_edge_count_bound_iff _).mpr few
  rcases restore_edges existing_fact_ids edges new with ⟨_,restored,whole,_⟩ | ⟨⟨e,member,refused⟩,_⟩
  · refine ⟨restored,?_⟩
    rw [from_snapshot,bounded]
    exact whole
  · exact absurd (all e member) refused

/-- A graph is rebuilt from the edges it wrote exactly when there are not too many of them,
    their ids are positive and their facts exist, and the rebuilt graph has the same labelled
    edges; a graph built from a list of edges has exactly those. -/
theorem snapshot_round_trip (g : MemoryGraph) (existing_fact_ids : Finset FactId) :
    ((∃ restored, from_snapshot g.to_snapshot existing_fact_ids = .ok restored) ↔
      g.view.card ≤ MAX_SNAPSHOT_EDGES ∧ ∀ e ∈ g.view, (0 < e.edge_id ∧ 0 < e.source ∧ 0 < e.target) ∧
        e.source ∈ existing_fact_ids ∧ e.target ∈ existing_fact_ids) ∧
      (∀ restored, from_snapshot g.to_snapshot existing_fact_ids = .ok restored → restored.view = g.view) ∧
      ∀ edges : List Edge, (from_active_edges edges).view = (edges.map Edge.snapshot : Multiset GraphEdgeSnapshot) := by
  refine ⟨⟨?_,?_⟩,fun restored accepted => (from_snapshot_iff _ _ restored accepted).2.2,view_from_active_edges⟩
  · rintro ⟨restored,accepted⟩
    obtain ⟨few,all,_⟩ := from_snapshot_iff _ _ restored accepted
    refine ⟨few,fun e member => ?_⟩
    obtain ⟨edge_id,positive,present⟩ := all e member
    exact ⟨⟨edge_id,positive⟩,present⟩
  · rintro ⟨few,sound⟩
    have all : ∀ e ∈ g.to_snapshot, Admitted existing_fact_ids e := by
      intro e member
      obtain ⟨⟨edge_id,positive⟩,present⟩ := sound e member
      exact ⟨edge_id,positive,present⟩
    exact from_snapshot_of_admitted few all

end MemoryEngine.MemoryGraph
