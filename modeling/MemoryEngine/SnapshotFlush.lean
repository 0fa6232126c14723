import MemoryEngine.GraphComponents
import MemoryEngine.Interleaving
import MemoryEngine.Snapshot

/-! The snapshot file and the engine: a flush copies the graph and the scope tree, reads the
fingerprint afterwards and writes all of it, and an opening takes the file where the
fingerprint is still the one of the database. -/

namespace MemoryEngine
open Time KeyedTable Transaction Search Snapshot

def ENGINE_VERSION : String := "0.1.0"

/-- What a process knows beside the engine: the libraries, whether the database is a file, and
    whether vectors are indexed. -/
structure SnapshotHost where
  lib : Libraries
  file_backed : Bool
  ann : Bool

/-- Every fact that there is, active or expired. -/
def existing_fact_ids (t : Tables) : Finset FactId := (t.facts.rows.map Fact.id).toFinset

def usize_try_from (n : Int) : Option Nat := if n < 0 then none else some n.toNat

def hnsw_entry (embed_dim : Nat) (f : Fact) : Except MemoryError HnswEntry := do
  return ⟨f.id,← deserialize_embedding embed_dim f⟩

/-- The vectors of the active facts. -/
def hnsw_to_snapshot (embed_dim : Nat) : Sql (List HnswEntry) := do
  let rows ← query (·.activeFacts)
  (rows.mapM (hnsw_entry embed_dim) : Except MemoryError (List HnswEntry))

section flush
variable (host : SnapshotHost) (ctx : MemoryCtx)

/-- The vectors, where they are indexed. -/
def hnsw_snap : Sql (Option (List HnswEntry)) :=
  if host.ann then do return some (← hnsw_to_snapshot ctx.backend.embed_dim) else return none

def snapshot_header (fingerprint : DbFingerprint) : SnapshotHeader := ⟨FORMAT_VERSION,fingerprint,ctx.backend.embed_dim,ENGINE_VERSION⟩

/-- The bytes that stand at the path afterwards, or nothing where none are written. -/
def write_engine_snapshot (graph : List GraphEdgeSnapshot) (scope_tree : List ScopeNode) : Sql (Option (List UInt8)) :=
  if host.file_backed = false then return none else if ctx.read_only then return none else do
    let fingerprint ← read_fingerprint
    let hnsw ← hnsw_snap host ctx
    let data ← (write_to_file host.lib (snapshot_header ctx fingerprint) ⟨graph,scope_tree,hnsw⟩ : Except MemoryError (List UInt8))
    return some data

def flush_snapshot : Op (Option (List UInt8)) :=
  if ctx.read_only then return none else if ctx.reopen_required ≠ 0 then return none else do
    let engine ← get
    let graph_snap := engine.graph.to_snapshot
    let scope_snap := engine.scope_tree.to_snapshot
    port (write_engine_snapshot host ctx graph_snap scope_snap)

/-- What an opening takes from the file. No result at all is a panic; `some none` means that
    the projections are rebuilt from the database. -/
def try_load_snapshot (sidecar : Sidecar) (embed_dim : Nat) (t : Tables) :
    Option (Option (MemoryGraph × ScopeTree × Option (List HnswEntry))) :=
  if host.file_backed = false then some none else
  match load_from_file host.lib sidecar embed_dim with
  | none => none
  | some none => some none
  | some (some (header,payload)) =>
    if header.fingerprint ≠ t.fingerprint then some none else
    if usize_try_from t.fingerprint.active_edge_count ≠ some payload.graph.length then some none else
    match MemoryGraph.from_snapshot payload.graph (existing_fact_ids t) with
    | .error _ => some none
    | .ok graph => some (some (graph,ScopeTree.from_snapshot payload.scope_tree,payload.hnsw))

end flush

theorem mem_existing_fact_ids {t : Tables} {id : FactId} : id ∈ existing_fact_ids t ↔ t.facts.Has id := by
  simp only [existing_fact_ids,List.mem_toFinset,List.mem_map]
  rfl

/-- The checks that are made after the fingerprint do not let the edges pass: the number is
    another one than that of the active edges, or too large, or a row id or an end is refused. -/
def Betrayed (graph : List GraphEdgeSnapshot) (t : Tables) : Prop :=
  graph.length ≠ (t.edges.liveRows Edge.active).length ∨ MemoryGraph.MAX_SNAPSHOT_EDGES < graph.length ∨
    ∃ e ∈ graph, ¬ MemoryGraph.Admitted (existing_fact_ids t) e

/-- An opening takes exactly the files that load, have the fingerprint of the database and hold
    edges that pass, and it then has those edges. -/
theorem loads_iff {host : SnapshotHost} {sidecar : Sidecar} {embed_dim : Nat} {t : Tables} {scope_tree : ScopeTree}
    {hnsw : Option (List HnswEntry)} {edges : Multiset GraphEdgeSnapshot} :
    (∃ graph, try_load_snapshot host sidecar embed_dim t = some (some (graph,scope_tree,hnsw)) ∧ graph.view = edges) ↔
      host.file_backed = true ∧ ∃ header payload, load_from_file host.lib sidecar embed_dim = some (some (header,payload)) ∧
        header.fingerprint = t.fingerprint ∧ ¬ Betrayed payload.graph t ∧ (payload.graph : Multiset GraphEdgeSnapshot) = edges ∧
          ScopeTree.from_snapshot payload.scope_tree = scope_tree ∧ payload.hnsw = hnsw := by
  have count : usize_try_from t.fingerprint.active_edge_count = some (t.edges.liveRows Edge.active).length := by
    have natural : ¬ t.fingerprint.active_edge_count < 0 := Int.not_lt.mpr (Int.natCast_nonneg _)
    rw [usize_try_from,if_neg natural]
    rfl
  have passes : ∀ graph : List GraphEdgeSnapshot, ¬ Betrayed graph t ↔ (t.edges.liveRows Edge.active).length = graph.length ∧
      graph.length ≤ MemoryGraph.MAX_SNAPSHOT_EDGES ∧ ∀ e ∈ graph, MemoryGraph.Admitted (existing_fact_ids t) e := by
    intro graph
    simp only [Betrayed,not_or,not_not,not_lt,not_exists,not_and,ne_eq]
    exact and_congr_left' eq_comm
  unfold try_load_snapshot
  cases host.file_backed with
  | false => simp
  | true =>
    rw [if_neg (by decide)]
    cases loaded : load_from_file host.lib sidecar embed_dim with
    | none => simp
    | some found =>
      cases found with
      | none => simp
      | some snapshot =>
        obtain ⟨header,payload⟩ := snapshot
        simp only [true_and,Option.some.injEq,Prod.mk.injEq]
        constructor
        · rintro ⟨graph,taken,shown⟩
          refine ⟨header,payload,⟨rfl,rfl⟩,?_⟩
          by_cases same : header.fingerprint = t.fingerprint
          · rw [if_neg (not_not.mpr same),count] at taken
            by_cases several : some (t.edges.liveRows Edge.active).length = some payload.graph.length
            · rw [if_neg (not_not.mpr several)] at taken
              cases accepted : MemoryGraph.from_snapshot payload.graph (existing_fact_ids t) with
              | error _ => simp [accepted] at taken
              | ok restored =>
                obtain ⟨few,all,whole⟩ := MemoryGraph.from_snapshot_iff _ _ _ accepted
                simp only [accepted,Option.some.injEq,Prod.mk.injEq] at taken
                obtain ⟨rfl,rfl,rfl⟩ := taken
                exact ⟨same,(passes _).mpr ⟨Option.some.inj several,few,all⟩,whole.symm.trans shown,rfl,rfl⟩
            · rw [if_pos several] at taken
              simp at taken
          · rw [if_pos same] at taken
            simp at taken
        · rintro ⟨header',payload',⟨rfl,rfl⟩,same,whole,rfl,rfl,rfl⟩
          obtain ⟨several,few,all⟩ := (passes _).mp whole
          obtain ⟨restored,accepted⟩ := MemoryGraph.from_snapshot_of_admitted few all
          rw [if_neg (not_not.mpr same),count,if_neg (not_not.mpr (congrArg some several)),accepted]
          exact ⟨restored,rfl,(MemoryGraph.from_snapshot_iff _ _ _ accepted).2.2⟩

section flush
variable {host : SnapshotHost} {ctx : MemoryCtx}

theorem hnsw_snap_unchanged {s t : Db} {hnsw : Option (List HnswEntry)} (committed : Commits (hnsw_snap host ctx) s hnsw t) : t = s := by
  unfold hnsw_snap at committed
  split at committed
  · obtain ⟨entries,_,listed,last⟩ := commits_bind.mp committed
    obtain ⟨_,rfl⟩ := commits_pure.mp last
    obtain ⟨rows,_,read,decoded⟩ := commits_bind.mp listed
    obtain ⟨_,rfl⟩ := commits_query.mp read
    exact (commits_lift.mp decoded).2
  · exact (commits_pure.mp committed).2

/-- What a flush that writes has put together. -/
theorem commits_flush_snapshot {s t : Engine} {data : List UInt8} (committed : Commits (flush_snapshot host ctx) s (some data) t) :
    t = s ∧ ∃ hnsw, Commits (hnsw_snap host ctx) s.storage hnsw s.storage ∧ write_to_file host.lib (snapshot_header ctx s.storage.toTables.fingerprint)
      ⟨s.graph.to_snapshot,s.scope_tree.to_snapshot,hnsw⟩ = .ok data := by
  unfold flush_snapshot at committed
  split at committed
  · cases (commits_pure.mp committed).1
  split at committed
  · cases (commits_pure.mp committed).1
  obtain ⟨_,_,seen,rest⟩ := commits_bind.mp committed
  obtain ⟨rfl,rfl⟩ := commits_get.mp seen
  obtain ⟨db,written,rfl⟩ := commits_port.mp rest
  unfold write_engine_snapshot at written
  split at written
  · cases (commits_pure.mp written).1
  obtain ⟨fingerprint,_,read,rest⟩ := commits_bind.mp written
  obtain ⟨rfl,rfl⟩ := commits_query.mp read
  obtain ⟨hnsw,_,listed,rest⟩ := commits_bind.mp rest
  obtain rfl := hnsw_snap_unchanged listed
  obtain ⟨bytes,_,packing,last⟩ := commits_bind.mp rest
  obtain ⟨packed,rfl⟩ := commits_lift.mp packing
  obtain ⟨same,rfl⟩ := commits_pure.mp last
  cases same
  exact ⟨rfl,hnsw,listed,packed⟩

end flush
end MemoryEngine
