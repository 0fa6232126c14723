import MemoryEngine.GraphEdit

/-! Linking the facts of a session, and expiring one edge. -/

namespace MemoryEngine
open Time KeyedTable Transaction GraphEdit

/-- Ids of the active facts that come from events of the session, in the given
    scopes or, when none is given, in all of them. -/
def FactStore.list_active_by_session (session_id : String) (scope_ids : List Int) : Sql (List FactId) :=
  query fun t => (t.facts.rows.filter (fun f => f.t_expired.isNone &&
    (f.source_event_id.bind t.events.find).any (fun e => e.session_id == some session_id) &&
      (scope_ids.isEmpty || scope_ids.contains f.scope_id))).map Fact.id

namespace SessionEdges

def CO_SESSION_RELATION : String := RelationType.CoSession.as_str
def CO_SESSION_WEIGHT : F64 := F64.ofRat (1 / 2)
def CO_SESSION_SCOPE_ID : Int := 1

/-- Both directions of every pair, in the order of the loops. -/
def pairs : List FactId → List (FactId × FactId)
  | [] => []
  | a_id :: rest => rest.flatMap (fun b_id => [(a_id,b_id),(b_id,a_id)]) ++ pairs rest

def cosessionEdge (relation : String) (weight : F64) (scope_id : Int) (now : DateTime) (src tgt : FactId) : NewEdge where
  source_fact_id := src
  target_fact_id := tgt
  relation_type := RelationType.from relation
  weight := weight
  t_created := now
  t_expired := none
  scope_id := scope_id

def insert_cosession_edges_atomic (fact_ids : List FactId) (relation : String) (weight : F64) (scope_id : Int) (now : DateTime) :
    Sql (List (Int × FactId × FactId)) := do
  let existing ← EdgeStore.list_active_pairs_by_facts fact_ids relation
  (pairs fact_ids).foldlM (fun new_edges pair =>
    if existing.contains pair then return new_edges else do
      let edge_id ← EdgeStore.insert (cosessionEdge relation weight scope_id now pair.1 pair.2)
      return new_edges ++ [(edge_id,pair.1,pair.2)]) []

def mirrorEdges (new_edges : List (Int × FactId × FactId)) (g : MemoryGraph) : MemoryGraph :=
  new_edges.foldl (fun graph edge => graph.add_edge edge.2.1 edge.2.2 ⟨edge.1,.CoSession,CO_SESSION_WEIGHT⟩) g

/-- The ids of the scope's subtree, or none for all scopes. -/
def scopeIds (tree : ScopeTree) : Option String → Except MemoryError (List Int)
  | none => .ok []
  | some path =>
    match tree.resolve_path path with
    | some id => .ok (tree.subtree id)
    | none => .error (.NotFound s!"scope path: {path}")

end SessionEdges

open SessionEdges

def link_session_facts (ctx : MemoryCtx) (session_id : String) (scope : Option String) (now : DateTime) : Op Nat := do
  ctx.ensure_writable
  let engine ← get
  let scope_ids ← scopeIds engine.scope_tree scope
  let fact_ids ← port (FactStore.list_active_by_session session_id scope_ids)
  if fact_ids.length < 2 then return 0
  let new_edges ← port (insert_cosession_edges_atomic fact_ids CO_SESSION_RELATION CO_SESSION_WEIGHT CO_SESSION_SCOPE_ID now)
  mirror (mirrorEdges new_edges)
  return new_edges.length

def expire_edge (ctx : MemoryCtx) (edge_id : Int) (now : DateTime) : Op Unit := do
  ctx.ensure_writable
  port (EdgeStore.expire edge_id now)
  mirror fun g => g.remove_edge_by_id edge_id

namespace SessionEdges

def created (new_edges : List (Int × FactId × FactId)) : List GraphEdgeSnapshot :=
  new_edges.map (fun edge => ⟨edge.1,edge.2.1,edge.2.2,.CoSession,CO_SESSION_WEIGHT⟩)

/-- The loop adds one active edge for every triple it reports. -/
theorem edits_loop {existing : List (FactId × FactId)} {now : DateTime} (todo : List (FactId × FactId))
    {new_edges new_edges' : List (Int × FactId × FactId)} {s t : Db}
    (committed : Commits (todo.foldlM (fun new_edges pair =>
      if existing.contains pair then return new_edges else do
        let edge_id ← EdgeStore.insert (cosessionEdge CO_SESSION_RELATION CO_SESSION_WEIGHT CO_SESSION_SCOPE_ID now pair.1 pair.2)
        return new_edges ++ [(edge_id,pair.1,pair.2)]) new_edges) s new_edges' t) :
    ∃ more, new_edges' = new_edges ++ more ∧ Edits (adding (created more)) s t := by
  induction todo generalizing new_edges s with
  | nil =>
    obtain ⟨rfl,rfl⟩ := commits_pure.mp committed
    exact ⟨[],by simp,Edits.adding_none (SameEdges.refl _)⟩
  | cons pair rest ih =>
    rw [List.foldlM_cons] at committed
    obtain ⟨next,m,first,tail⟩ := commits_bind.mp committed
    obtain ⟨more,grown,after⟩ := ih tail
    split at first
    · obtain ⟨rfl,rfl⟩ := commits_pure.mp first
      exact ⟨more,grown,after⟩
    · obtain ⟨edge_id,m',inserted,last⟩ := commits_bind.mp first
      obtain ⟨rfl,rfl⟩ := commits_pure.mp last
      have here := EdgeStore.edits_insert rfl inserted
      refine ⟨(edge_id,pair.1,pair.2) :: more,by rw [grown,List.append_assoc]; rfl,?_⟩
      exact here.adding_trans after

theorem view_mirrorEdges (new_edges : List (Int × FactId × FactId)) (g : MemoryGraph) :
    (mirrorEdges new_edges g).view = (adding (created new_edges)).apply g.view := by
  induction new_edges generalizing g with
  | nil => simp [mirrorEdges,created]
  | cons edge rest ih =>
    have step := ih (g.add_edge edge.2.1 edge.2.2 ⟨edge.1,.CoSession,CO_SESSION_WEIGHT⟩)
    rw [MemoryGraph.view_add_edge_as,adding_apply,adding_apply,Multiset.add_assoc] at step
    rw [adding_apply]
    exact step

theorem edits {fact_ids : List FactId} {now : DateTime} {s t : Db} {new_edges : List (Int × FactId × FactId)}
    (committed : Commits (insert_cosession_edges_atomic fact_ids CO_SESSION_RELATION CO_SESSION_WEIGHT CO_SESSION_SCOPE_ID now)
      s new_edges t) : Edits (adding (created new_edges)) s t := by
  obtain ⟨existing,m,listed,loop⟩ := commits_bind.mp committed
  obtain ⟨rfl,rfl⟩ := commits_query.mp listed
  obtain ⟨more,grown,edges⟩ := edits_loop _ loop
  rw [List.nil_append] at grown
  subst grown
  exact edges

theorem replays (new_edges : List (Int × FactId × FactId)) : Replays (adding (created new_edges)) (mirrorEdges new_edges) :=
  fun g _ => view_mirrorEdges new_edges g

theorem replays_expire (edge_id : Int) : Replays (droppingEdge edge_id) (fun g => g.remove_edge_by_id edge_id) :=
  fun g distinct => MemoryGraph.view_remove_edge_by_id_as g edge_id distinct

end SessionEdges
end MemoryEngine
