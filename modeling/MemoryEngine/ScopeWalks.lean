import MemoryEngine.Scopes

/-! The walks over the cached hierarchy. They end for every list of nodes; over a forest they
give the chain to the root and the descendants, each id once. -/

namespace MemoryEngine

/-- A node with the id has this parent. -/
def ParentOf (nodes : List ScopeNode) (id parent : Int) : Prop := ∃ n ∈ nodes, n.id = id ∧ n.parent_id = some parent

/-- No id has two nodes and nothing is above itself. A parent need not have a node. -/
structure Forest (nodes : List ScopeNode) : Prop where
  distinct : (nodes.map ScopeNode.id).Nodup
  acyclic : ∀ id, ¬ Relation.TransGen (ParentOf nodes) id id

namespace ScopeTree
open GraphSearch Relation

/-- One node of the sequence that an index is built from. -/
def register (tree : ScopeTree) (node : ScopeNode) : ScopeTree :=
  ⟨tree.nodes.filter (fun n => n.id ≠ node.id) ++ [node],tree.link node⟩

theorem from_nodes_eq (nodes : List ScopeNode) : from_nodes nodes = nodes.foldl register ⟨[],[]⟩ := rfl

theorem mem_links_register {tree : ScopeTree} {node : ScopeNode} {parent id : Int} :
    (parent,id) ∈ (tree.register node).links ↔ (parent,id) ∈ tree.links ∨ node.id = id ∧ node.parent_id = some parent := by
  unfold register link
  cases node.parent_id with
  | none => simp
  | some above => simp [and_comm,eq_comm]

theorem mem_links_foldl {nodes : List ScopeNode} {tree : ScopeTree} {parent id : Int} :
    (parent,id) ∈ (nodes.foldl register tree).links ↔ (parent,id) ∈ tree.links ∨ ParentOf nodes id parent := by
  induction nodes generalizing tree with
  | nil => simp [ParentOf]
  | cons node rest ih =>
    rw [List.foldl_cons,ih,mem_links_register,or_assoc]
    refine or_congr_right ?_
    simp only [ParentOf,List.mem_cons,exists_eq_or_imp]

/-- The child lists say exactly which parents the nodes name, duplicates included. -/
theorem mem_children_from_nodes {nodes : List ScopeNode} {parent id : Int} :
    id ∈ (from_nodes nodes).children parent ↔ ParentOf nodes id parent := by
  rw [children,mem_ends,from_nodes_eq,mem_links_foldl]
  simp

theorem nodes_foldl {nodes : List ScopeNode} {tree : ScopeTree} (distinct : ((tree.nodes ++ nodes).map ScopeNode.id).Nodup) :
    (nodes.foldl register tree).nodes = tree.nodes ++ nodes := by
  induction nodes generalizing tree with
  | nil => simp
  | cons node rest ih =>
    have shifted : tree.nodes ++ node :: rest = (tree.nodes ++ [node]) ++ rest := by simp
    rw [shifted] at distinct
    have apart : tree.nodes.filter (fun n => n.id ≠ node.id) = tree.nodes := by
      refine List.filter_eq_self.mpr fun n member => decide_eq_true fun same => ?_
      rw [List.map_append,List.map_append] at distinct
      have fresh := (List.nodup_append.mp (List.nodup_append.mp distinct).1).2.2
      exact fresh n.id (List.mem_map_of_mem member) node.id (by simp) same
    have here : (tree.register node).nodes = tree.nodes ++ [node] := by rw [register,apart]
    rw [List.foldl_cons,ih (by rwa [here]),here,shifted]

/-- Nodes with distinct ids are kept as they are. -/
theorem nodes_from_nodes {nodes : List ScopeNode} (distinct : (nodes.map ScopeNode.id).Nodup) : (from_nodes nodes).nodes = nodes := by
  rw [from_nodes_eq,nodes_foldl (by simpa using distinct)]
  rfl

/-- With distinct ids the cache looks up the parent that the node names. -/
theorem parent_from_nodes {nodes : List ScopeNode} (distinct : (nodes.map ScopeNode.id).Nodup) {id parent : Int} :
    (from_nodes nodes).parent? id = some parent ↔ ParentOf nodes id parent := by
  unfold parent? node?
  rw [nodes_from_nodes distinct,Option.bind_eq_some_iff]
  constructor
  · rintro ⟨n,found,above⟩
    exact ⟨n,List.mem_of_find?_eq_some found,by simpa using List.find?_some found,above⟩
  · rintro ⟨n,member,rfl,above⟩
    cases found : nodes.find? (fun m => m.id == n.id) with
    | none => exact absurd (List.find?_eq_none.mp found n member) (by simp)
    | some other =>
      have same : other.id = n.id := by simpa using List.find?_some found
      have one := List.inj_on_of_nodup_map distinct (List.mem_of_find?_eq_some found) member same
      exact ⟨other,rfl,by rw [one]; exact above⟩

section labels
variable {tree : ScopeTree}

theorem labels_up_more {fuel : Nat} {current : Option Int} {seen : List Int} {segments : List String} {labels : Option (List String)}
    (ended : tree.labels_up fuel current seen segments = some labels) (extra : Nat) :
    tree.labels_up (fuel + extra) current seen segments = some labels := by
  induction fuel generalizing current seen segments with
  | zero => cases ended
  | succ fuel ih =>
    rw [Nat.succ_add]
    cases current with
    | none => exact ended
    | some id =>
      rw [labels_up] at ended ⊢
      by_cases root : id = ROOT_ID
      · rwa [if_pos root] at ended ⊢
      by_cases met : id ∈ seen
      · rwa [if_neg root,if_pos met] at ended ⊢
      rw [if_neg root,if_neg met] at ended ⊢
      split at ended
      · exact ended
      · exact ih ended

/-- Every step notes the id of another node, so the walk is no longer than the list of nodes. -/
theorem labels_up_ends {fuel : Nat} {current : Option Int} {seen : List Int} (segments : List String) (distinct : seen.Nodup)
    (known : ∀ id ∈ seen, id ∈ tree.nodes.map ScopeNode.id) (enough : tree.nodes.length < fuel + seen.length) :
    ∃ labels, tree.labels_up fuel current seen segments = some labels := by
  induction fuel generalizing current seen segments with
  | zero =>
    have short := (distinct.subperm known).length_le
    rw [List.length_map] at short
    omega
  | succ fuel ih =>
    cases current with
    | none => exact ⟨_,rfl⟩
    | some id =>
      rw [labels_up]
      by_cases root : id = ROOT_ID
      · exact ⟨_,if_pos root⟩
      by_cases met : id ∈ seen
      · exact ⟨_,by rw [if_neg root,if_pos met]⟩
      rw [if_neg root,if_neg met]
      cases found : tree.node? id with
      | none => exact ⟨_,rfl⟩
      | some node =>
        refine ih (segments ++ [node.label]) ?_ (fun other member => ?_) ?_
        · rw [← List.concat_eq_append]
          exact List.Nodup.concat met distinct
        · rcases List.mem_append.mp member with old | single
          · exact known other old
          · exact List.mem_singleton.mp single ▸ node_known found
        · rw [List.length_append,List.length_singleton]
          omega

end labels

section forest
variable {nodes : List ScopeNode}

theorem parent_rel (forest : Forest nodes) : Parent (from_nodes nodes).parent? = ParentOf nodes := by
  funext id parent
  exact propext (parent_from_nodes forest.distinct)

theorem ancestors_chain (forest : Forest nodes) (id : Int) : Chain (from_nodes nodes).parent? id ((from_nodes nodes).ancestors id) := by
  refine climb_exact (fun x circle => ?_) ((from_nodes nodes).climb_ancestors id 0)
  rw [parent_rel forest] at circle
  exact forest.acyclic x circle

theorem mem_subtree_from_nodes (id x : Int) : x ∈ (from_nodes nodes).subtree id ↔ ReflTransGen (ParentOf nodes) x id := by
  rw [mem_subtree_iff,Reaches]
  have swapped : (fun a b => b ∈ (from_nodes nodes).children a) = Function.swap (ParentOf nodes) := by
    funext a b
    exact propext mem_children_from_nodes
  rw [swapped,reflTransGen_swap]

theorem subtree_nodup (tree : ScopeTree) (id : Int) : (tree.subtree id).Nodup := by
  obtain ⟨all,ended,distinct,_⟩ := visit_exact tree.links id (Nat.lt_succ_self (tree.links.length + 1))
  have same : some all = some (tree.subtree id) := ended.symm.trans (tree.visit_subtree id 0)
  rwa [← Option.some.inj same]

theorem mem_inherited {tree : ScopeTree} {id x : Int} : x ∈ tree.inherited id ↔ x ∈ tree.ancestors id ∨ x ∈ tree.subtree id := by
  rw [inherited,List.mem_append,List.mem_filter]
  constructor
  · exact fun member => member.imp_right And.left
  · rintro (above | below)
    · exact .inl above
    · by_cases same : x = id
      · exact .inl (same ▸ tree.mem_ancestors x)
      · exact .inr ⟨below,decide_eq_true same⟩

/-- What is above an id and also below it is the id itself. -/
theorem inherited_nodup (forest : Forest nodes) (id : Int) : ((from_nodes nodes).inherited id).Nodup := by
  have chain := ancestors_chain forest id
  have acyclic : ∀ x, ¬ TransGen (Parent (from_nodes nodes).parent?) x x := by
    rw [parent_rel forest]
    exact forest.acyclic
  rw [inherited,List.nodup_append]
  refine ⟨chain.nodup acyclic,((from_nodes nodes).subtree_nodup id).filter _,?_⟩
  rintro x above _ below rfl
  obtain ⟨below,apart⟩ := List.mem_filter.mp below
  have up := (chain.mem_iff x).mp above
  rw [parent_rel forest] at up
  have down := (mem_subtree_from_nodes id x).mp below
  rcases reflTransGen_iff_eq_or_transGen.mp down with same | path
  · exact of_decide_eq_true apart same.symm
  · exact forest.acyclic x (path.trans_left up)

end forest

/-- Every walk from every id ends, whatever the nodes: duplicate ids, parents without a node
    and circles included. Over a forest the ancestors are the chain from the id to a root, the
    subtree is what has the id above it, and the inherited ids are those two together, without
    repetition. -/
theorem scope_walks (nodes : List ScopeNode) (id : Int) :
    (∀ extra, climb (from_nodes nodes).parent? ((from_nodes nodes).nodes.length + 2 + extra) (some id) [] =
        some ((from_nodes nodes).ancestors id)) ∧
      (∀ extra, visit (from_nodes nodes).children ((from_nodes nodes).links.length + 2 + extra) [id] [] =
        some ((from_nodes nodes).subtree id)) ∧
      (∃ labels, ∀ extra, (from_nodes nodes).labels_up ((from_nodes nodes).nodes.length + 2 + extra) (some id) [] [] = some labels) ∧
      (Forest nodes →
        (((from_nodes nodes).ancestors id).head? = some id ∧ ((from_nodes nodes).ancestors id).IsChain (ParentOf nodes) ∧
          (∀ last ∈ ((from_nodes nodes).ancestors id).getLast?, ∀ parent, ¬ ParentOf nodes last parent) ∧
          ((from_nodes nodes).ancestors id).Nodup) ∧
        (((from_nodes nodes).subtree id).Nodup ∧ ∀ x, x ∈ (from_nodes nodes).subtree id ↔ ReflTransGen (ParentOf nodes) x id) ∧
        (((from_nodes nodes).inherited id).Nodup ∧
          ∀ x, x ∈ (from_nodes nodes).inherited id ↔ x ∈ (from_nodes nodes).ancestors id ∨ x ∈ (from_nodes nodes).subtree id)) := by
  refine ⟨(from_nodes nodes).climb_ancestors id,(from_nodes nodes).visit_subtree id,?_,fun forest => ⟨?_,?_,?_⟩⟩
  · obtain ⟨labels,ended⟩ : ∃ labels, (from_nodes nodes).labels_up ((from_nodes nodes).nodes.length + 2) (some id) [] [] = some labels :=
      labels_up_ends [] List.nodup_nil (fun x member => absurd member List.not_mem_nil) (by omega)
    exact ⟨labels,fun extra => labels_up_more ended extra⟩
  · have chain := ancestors_chain forest id
    have linked := chain.linked
    rw [parent_rel forest] at linked
    refine ⟨chain.first,linked,fun last member parent above => ?_,chain.nodup ?_⟩
    · have topmost := chain.last last member
      rw [(parent_from_nodes forest.distinct).mpr above] at topmost
      cases topmost
    · rw [parent_rel forest]
      exact forest.acyclic
  · exact ⟨(from_nodes nodes).subtree_nodup id,mem_subtree_from_nodes id⟩
  · exact ⟨inherited_nodup forest id,fun x => mem_inherited⟩

end ScopeTree
end MemoryEngine
