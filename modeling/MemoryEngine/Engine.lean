import MemoryEngine.SidecarStores
import MemoryEngine.EdgeStore
import MemoryEngine.Scopes

/-! The engine around the database: the two in-memory projections and the gates
every write passes. A port call runs as one transaction; the graph changes only
between port calls. -/

namespace MemoryEngine
open Time KeyedTable Transaction

/-- The capability handle of a primitive. -/
structure MemoryCtx where
  backend : SqliteBackend
  read_only : Bool
  reopen_required : Nat

/-- The store and its in-memory projections. -/
structure Engine where
  storage : Db
  graph : MemoryGraph
  scope_tree : ScopeTree

/-- Engine operations. One that fails is described by its error alone. -/
abbrev Op (α : Type) := Tx Engine MemoryError α

namespace MemoryCtx

def ensure_open (ctx : MemoryCtx) : Except MemoryError Unit :=
  if ctx.reopen_required = 0 then .ok () else .error (.EmbeddingReopenRequired ctx.reopen_required)

def ensure_writable (ctx : MemoryCtx) : Except MemoryError Unit :=
  if ctx.read_only then .error .ReadOnly else .ok ()

end MemoryCtx

/-- Await a port call. -/
def port {α : Type} (x : Sql α) : Op α := fun engine =>
  match x.run engine.storage with
  | .ok (a,db) => .ok (a,{ engine with storage := db })
  | .error e => .error e

/-- Change the graph under its write lock. -/
def mirror (change : MemoryGraph → MemoryGraph) : Op Unit := modify fun engine => { engine with graph := change engine.graph }

theorem commits_port {α : Type} {x : Sql α} {s t : Engine} {a : α} :
    Commits (port x) s a t ↔ ∃ db, Commits x s.storage a db ∧ t = { s with storage := db } := by
  unfold Commits
  have unfolded : (port x).run s = match x.run s.storage with
      | .ok (a,db) => .ok (a,{ s with storage := db })
      | .error e => .error e := rfl
  rw [unfolded]
  cases x.run s.storage with
  | error e => simp
  | ok value =>
    obtain ⟨b,db⟩ := value
    simp only [Except.ok.injEq,Prod.mk.injEq]
    constructor
    · rintro ⟨rfl,rfl⟩
      exact ⟨db,⟨rfl,rfl⟩,rfl⟩
    · rintro ⟨_,⟨rfl,rfl⟩,rfl⟩
      exact ⟨rfl,rfl⟩

theorem commits_mirror {change : MemoryGraph → MemoryGraph} {s t : Engine} {u : Unit} :
    Commits (mirror change) s u t ↔ t = { s with graph := change s.graph } := by
  change Except.ok ((),_) = Except.ok (u,t) ↔ _
  simp only [Except.ok.injEq,Prod.mk.injEq]
  exact ⟨fun both => both.2.symm,fun same => ⟨trivial,same.symm⟩⟩

/-- Unfold the two gates at the head of an operation. -/
theorem commits_gated {α : Type} {gate gate' : Except MemoryError Unit} {body : Op α} {s t : Engine} {a : α}
    (committed : Commits (do liftM gate; liftM gate'; body : Op α) s a t) : Commits body s a t := by
  obtain ⟨_,_,first,rest⟩ := commits_bind.mp committed
  obtain ⟨_,rfl⟩ := commits_lift.mp first
  obtain ⟨_,_,second,inner⟩ := commits_bind.mp rest
  obtain ⟨_,rfl⟩ := commits_lift.mp second
  exact inner

/-- Recover the graph from the store. -/
def load_graph_from_db : Sql MemoryGraph := do
  return MemoryGraph.from_active_edges (← EdgeStore.list_active)

def load_scope_tree : Sql ScopeTree := do
  return ScopeTree.from_nodes (← ScopeStore.list_all)

/-- Open an engine on a store that has no sidecar. -/
def full_rebuild : Sql Engine := do
  let graph ← load_graph_from_db
  let scope_tree ← load_scope_tree
  return ⟨← get,graph,scope_tree⟩

/-- The graph holds exactly the active edges of the store. -/
def Engine.Mirrored (engine : Engine) : Prop := engine.graph.view = engine.storage.activeEdges

/-- What a rebuild takes from the store. -/
theorem commits_full_rebuild {db db' : Db} {engine : Engine} (opened : Commits full_rebuild db engine db') :
    engine = ⟨db,MemoryGraph.from_active_edges (db.edges.rows.filter Edge.active),ScopeTree.from_nodes db.scopes.rows⟩ := by
  obtain ⟨graph,m,loaded,rest⟩ := commits_bind.mp opened
  obtain ⟨edges,m',listed,made⟩ := commits_bind.mp loaded
  obtain ⟨rfl,_,rfl⟩ := EdgeStore.commits_list_active.mp listed
  obtain ⟨rfl,rfl⟩ := commits_pure.mp made
  obtain ⟨tree,_,cached,last⟩ := commits_bind.mp rest
  obtain ⟨_,_,nodes,shaped⟩ := commits_bind.mp cached
  obtain ⟨rfl,rfl⟩ := commits_query.mp nodes
  obtain ⟨rfl,rfl⟩ := commits_pure.mp shaped
  obtain ⟨_,_,current,done⟩ := commits_bind.mp last
  obtain ⟨rfl,rfl⟩ := commits_get.mp current
  obtain ⟨rfl,rfl⟩ := commits_pure.mp done
  rfl

/-- An opened engine mirrors its store. -/
theorem full_rebuild_mirrored {db db' : Db} {engine : Engine} (opened : Commits full_rebuild db engine db') :
    engine.storage = db ∧ engine.Mirrored := by
  rw [commits_full_rebuild opened]
  exact ⟨rfl,MemoryGraph.view_from_active_edges _⟩

/-- The instant zero of the clock. -/
def UNIX_EPOCH : DateTime := ⟨1970,1,1,0,0,by decide,by decide,by decide,by decide⟩

/-! A small store that the examples below start from. -/
namespace Sample

def moment : DateTime := ⟨2026,1,1,0,0,by decide,by decide,by decide,by decide⟩

/-- Dimension one, with the digests of the contents in use. -/
def backend : SqliteBackend where
  embed_dim := 1
  content_hash := fun content =>
    if content = "a" then "17762fddd969a453925d65717ac3eea2" else
    if content = "b" then "10e5cf3d3c8a4f9f3468c8cc58eea848" else
    if content = "c" then "ea7aa1fc9efdbe106dbb70369a75e967" else
    if content = "d" then "d5ede538f628f687e5e0422c7755b503" else ""
  float_text := fun _ => "0.5"
  display := fun _ => "0.5"
  mul_add := fun _ _ addend => addend
  latest_revision := fun _ => 1

def ctx : MemoryCtx := ⟨backend,false,0⟩

def newFact (content : String) : NewFact where
  content := content
  content_hash := ""
  embedding := [0x3F000000]
  fact_type := .Semantic
  t_created := moment
  t_expired := none
  t_valid := none
  t_invalid := none
  source_event_id := none
  base_importance := F64.ofRat (1 / 2)
  access_count := 0
  last_accessed := moment
  metadata := .obj []
  scope_id := 1
  is_pinned := false

def newEdge (source target : FactId) : NewEdge where
  source_fact_id := source
  target_fact_id := target
  relation_type := .CoSession
  weight := F64.ofRat 1
  t_created := moment
  t_expired := none
  scope_id := 1

/-- Three facts, the first of them linked to the third. -/
def facts : Sql Engine := do
  let _ ← FactStore.insert backend (newFact "a")
  let _ ← FactStore.insert backend (newFact "b")
  let _ ← FactStore.insert backend (newFact "c")
  let _ ← EdgeStore.insert (newEdge 1 3)
  full_rebuild

/-- The result of a run, or the given value where it fails. -/
def result {α : Type} (x : Sql α) (default : α) : α :=
  match x.run Db.fresh with
  | .ok (a,_) => a
  | .error _ => default

def engine : Engine := result facts ⟨Db.fresh,MemoryGraph.new,⟨[],[]⟩⟩

end Sample
end MemoryEngine
