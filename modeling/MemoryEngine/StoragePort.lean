import MemoryEngine.Activities
import MemoryEngine.Archive
import MemoryEngine.Bootstrap
import MemoryEngine.Consolidate
import MemoryEngine.FactVectors
import MemoryEngine.Forget
import MemoryEngine.Resolve
import MemoryEngine.SessionEdges

/-! The storage port. Every call of it that writes runs as one statement or one
transaction; a call that only reads leaves the database alone and is left out. -/

namespace MemoryEngine
open Time KeyedTable Transaction

namespace FactStore
variable (self : SqliteBackend)

def update_importance_score (id : FactId) (score : F64) : Sql Unit :=
  match score with
  | .nan => do
    -- as for the base importance: the NULL needs a row to break the constraint
    let found ← query fun t => decide (t.facts.Has id)
    if found then throw (.Storage "NOT NULL constraint failed: facts.importance_score")
    else throw (.NotFound s!"fact {id}")
  | .num importance => updateRow id (fun f => { f with importance_score := importance }) (fun _ => rfl)

def increment_access (id : FactId) (now : DateTime) : Sql Unit :=
  updateRow id (fun f => { f with access_count := f.access_count + 1, last_accessed := now }) (fun _ => rfl)

/-- The stamps of the given facts. -/
def stamps (fact_ids : List FactId) (t : Tables) : List (FactId × DateTime) :=
  t.facts.rows.filterMap fun f => if fact_ids.contains f.id then f.surfaced_at.map (fun ts => (f.id,ts)) else none

/-- Stamp the facts that have no stamp, then read all stamps. The reading fails apart
    from the stamping. -/
def stamp_surfaced (fact_ids : List FactId) (now : DateTime) : Sql (Except MemoryError (List (FactId × DateTime))) :=
  if fact_ids = [] then return .ok [] else do
    execute fun t => { t with
      facts := t.facts.update (fun f => fact_ids.contains f.id && f.surfaced_at.isNone) (fun f => { f with surfaced_at := some now }) }
    let rows ← query (stamps fact_ids)
    return readRows (fun row : FactId × DateTime => row.2.Readable) rows

end FactStore

/-- Delete the edges with both ends in the set. -/
def EdgeStore.hard_delete_by_facts (fact_ids : List FactId) : Sql Nat := do
  let deleted ← query fun t => t.edges.rows.countP (fun e => fact_ids.contains e.source_fact_id && fact_ids.contains e.target_fact_id)
  execute fun t => { t with
    edges := t.edges.delete (fun e => fact_ids.contains e.source_fact_id && fact_ids.contains e.target_fact_id) }
  return deleted

/-- Insert a scope as given; the label is not checked. -/
def ScopeStore.insert (parent_id : Int) (label : String) (depth : Int) : Sql ScopeNode := do
  let id ← query (·.scopes.nextId)
  execute fun t => { t with scopes := t.scopes.insert (newRow parent_id label depth) (newRow_key parent_id label depth) }
  return newRow parent_id label depth id

namespace LineageStore

/-- Insert a row under an id of its own. -/
def insert_raw (entry : LineageRow) : Sql Unit := do
  let used ← query fun t => decide (t.lineage.Has entry.lineage_id)
  require (used = false) (.Storage "UNIQUE constraint failed: lineage.lineage_id")
  execute fun t => { t with lineage := t.lineage.insertKeyed entry }

def delete (wisdom_fact_id : FactId) : Sql Bool := do
  let rows ← query fun t => t.lineage.rows.countP (fun l => l.wisdom_fact_id == wisdom_fact_id)
  execute fun t => { t with lineage := t.lineage.delete (fun l => l.wisdom_fact_id == wisdom_fact_id) }
  return rows > 0

end LineageStore

def ArchiveManifestStore.delete (id : Int) : Sql Bool := do
  let deleted ← query fun t => t.archive_manifest.rows.countP (fun m => m.id == id)
  execute fun t => { t with archive_manifest := t.archive_manifest.delete (fun m => m.id == id) }
  return deleted > 0

/-- The last write of a session wins. -/
def CheckpointStore.upsert (checkpoint : SessionCheckpoint) : Sql Unit :=
  execute fun t => { t with
    session_checkpoints := if t.session_checkpoints.any (fun c => c.session_id == checkpoint.session_id)
      then t.session_checkpoints.map (fun c => if c.session_id = checkpoint.session_id then checkpoint else c)
      else t.session_checkpoints ++ [checkpoint] }

/-- A call of the port that writes. -/
inductive PortWrite where
  | insert_event (event : NewEvent)
  | insert_fact (fact : NewFact)
  | insert_or_reinforce_fact (fact : NewFact)
  | expire_fact (id : FactId) (now : DateTime)
  | expire_and_invalidate_fact (id : FactId) (now : DateTime)
  | set_fact_pinned (id : FactId) (pinned : Bool)
  | update_fact_base_importance (id : FactId) (base_importance : F64)
  | update_fact_importance_score (id : FactId) (score : F64)
  | increment_fact_access (id : FactId) (now : DateTime)
  | merge_fact_metadata (id : FactId) (patch : Json)
  | mark_facts_dream_cycled (ids : List FactId) (cycle_id : Nat) (now : DateTime)
  | stamp_facts_surfaced (fact_ids : List FactId) (now : DateTime)
  | hard_delete_facts (ids : List FactId)
  | insert_edge (edge : NewEdge)
  | expire_edge (id : Int) (now : DateTime)
  | expire_edges_by_fact (fact_id : FactId) (now : DateTime)
  | hard_delete_edges_by_facts (fact_ids : List FactId)
  | insert_scope (parent_id : Int) (label : String) (depth : Int)
  | ensure_scope_path (path : String)
  | insert_fact_atomic (fact : NewFact) (fingerprint : EmbeddingFingerprint) (expected_dim : Nat)
  | insert_facts_batch_atomic (facts : List NewFact) (scope_paths : List (Option String)) (fingerprint : EmbeddingFingerprint)
      (expected_dim : Nat)
  | insert_cosession_edges_atomic (fact_ids : List FactId) (relation : String) (weight : F64) (scope_id : Int) (now : DateTime)
  | resolve_conflict_atomic (decision : CrudDecision) (old_id : FactId) (new_fact : NewFact) (relation : String) (weight : F64)
      (now : DateTime)
  | prune_atomic (scored : List (FactId × F64)) (to_expire : List FactId) (now : DateTime)
  | ingest_bootstrap_batch_atomic (marker : Option NewEvent) (skip_if_present : Option EventFilter) (facts : List NewFact)
      (fingerprint : EmbeddingFingerprint) (expected_dim : Nat)
  | insert_summary (summary : NewSummary)
  | delete_summaries_by_level (level : ConsolidationLevel)
  | insert_lineage (record : NewLineageRecord) (provenance : PromotionProvenance)
  | insert_lineage_raw (entry : LineageRow)
  | delete_lineage (wisdom_fact_id : FactId)
  | apply_cycle_deltas_atomic (codec : HistoryCodec) (report : CycleReport) (now : DateTime)
  | apply_plan (plan : ConsolidationPlan)
  | promote_atomic (fact : NewFact) (scope_path : Option String) (source_fact_ids : List FactId) (provenance : PromotionProvenance)
  | store_embedding_fingerprint (fp : EmbeddingFingerprint)
  | record_embedding_fingerprint_if_absent (candidate : EmbeddingFingerprint) (expected_dim : Nat)
  | set_config (key value : String)
  | begin_populating_space (name : String) (fingerprint : EmbeddingFingerprint)
  | write_backfill_batch (space : String) (rows : List (FactId × Embedding))
  | promote_space (populating : String)
  | deprecate_space (name : String)
  | insert_or_dedup_activity (libraries : ActivityLibraries) (activity : NewActivity) (dedup_window_secs : Int)
  | update_activity_status (id : Int) (status : ActivityStatus) (promoted_fact_id : Option FactId)
  | upsert_checkpoint (checkpoint : SessionCheckpoint)
  | insert_archive_manifest (entry : NewArchiveManifest)
  | delete_archive_manifest (id : Int)
  | commit_archive_atomic (entry : NewArchiveManifest) (fact_ids : List FactId)

/-- The call, without the value it returns. -/
def PortWrite.run (self : SqliteBackend) : PortWrite → Sql Unit
  | insert_event event => do let _ ← EventStore.insert self event
  | insert_fact fact => do let _ ← FactStore.insert self fact
  | insert_or_reinforce_fact fact => do let _ ← FactStore.insert_or_reinforce self fact
  | expire_fact id now => FactStore.expire id now
  | expire_and_invalidate_fact id now => FactStore.expire_and_invalidate id now
  | set_fact_pinned id pinned => FactStore.set_pinned id pinned
  | update_fact_base_importance id base_importance => FactStore.update_base_importance id base_importance
  | update_fact_importance_score id score => FactStore.update_importance_score id score
  | increment_fact_access id now => FactStore.increment_access id now
  | merge_fact_metadata id patch => FactStore.merge_metadata id patch
  | mark_facts_dream_cycled ids cycle_id now => FactStore.mark_dream_cycled ids cycle_id now
  | stamp_facts_surfaced fact_ids now => do let _ ← FactStore.stamp_surfaced fact_ids now
  | hard_delete_facts ids => do let _ ← FactStore.hard_delete_ids ids
  | insert_edge edge => do let _ ← EdgeStore.insert edge
  | expire_edge id now => EdgeStore.expire id now
  | expire_edges_by_fact fact_id now => do let _ ← EdgeStore.expire_by_fact fact_id now
  | hard_delete_edges_by_facts fact_ids => do let _ ← EdgeStore.hard_delete_by_facts fact_ids
  | insert_scope parent_id label depth => do let _ ← ScopeStore.insert parent_id label depth
  | ensure_scope_path path => do let _ ← ScopeStore.ensure_path path
  | insert_fact_atomic fact fingerprint expected_dim => do let _ ← Ingest.insert_fact_atomic self fact fingerprint expected_dim
  | insert_facts_batch_atomic facts scope_paths fingerprint expected_dim => do
    let _ ← Ingest.insert_facts_batch_atomic self facts scope_paths fingerprint expected_dim
  | insert_cosession_edges_atomic fact_ids relation weight scope_id now => do
    let _ ← SessionEdges.insert_cosession_edges_atomic fact_ids relation weight scope_id now
  | resolve_conflict_atomic decision old_id new_fact relation weight now => do
    let _ ← Resolve.resolve_conflict_atomic self decision old_id new_fact relation weight now
  | prune_atomic scored to_expire now => do let _ ← Forget.prune_atomic self scored to_expire now
  | ingest_bootstrap_batch_atomic marker skip_if_present facts fingerprint expected_dim => do
    let _ ← Bootstrap.ingest_bootstrap_batch_atomic self marker skip_if_present facts fingerprint expected_dim
  | insert_summary summary => do let _ ← SummaryStore.insert self summary
  | delete_summaries_by_level level => SummaryStore.delete_by_level level
  | insert_lineage record provenance => do let _ ← LineageStore.insert record provenance
  | insert_lineage_raw entry => LineageStore.insert_raw entry
  | delete_lineage wisdom_fact_id => do let _ ← LineageStore.delete wisdom_fact_id
  | apply_cycle_deltas_atomic codec report now => do let _ ← Cycle.apply_cycle_deltas_atomic self codec report now
  | apply_plan plan => do let _ ← Consolidate.apply_plan self plan
  | promote_atomic fact scope_path source_fact_ids provenance => do
    let _ ← Ingest.promote_atomic self fact scope_path source_fact_ids provenance
  | store_embedding_fingerprint fp => EmbeddingSpaces.upsert_active_fingerprint fp
  | record_embedding_fingerprint_if_absent candidate expected_dim => do
    let _ ← EmbeddingMeta.record_if_absent candidate expected_dim
  | set_config key value => Config.set_config key value
  | begin_populating_space name fingerprint => EmbeddingSpaces.begin_populating ⟨name,fingerprint,.Populating⟩
  | write_backfill_batch space rows => do let _ ← FactVectors.write_backfill_batch space rows
  | promote_space populating => do let _ ← FactVectors.promote_space populating
  | deprecate_space name => EmbeddingSpaces.deprecate_space name
  | insert_or_dedup_activity libraries activity dedup_window_secs => do
    let _ ← ActivityStore.insert_or_dedup libraries activity dedup_window_secs
  | update_activity_status id status promoted_fact_id => ActivityStore.update_status id status promoted_fact_id
  | upsert_checkpoint checkpoint => CheckpointStore.upsert checkpoint
  | insert_archive_manifest entry => do let _ ← ArchiveManifestStore.insert entry
  | delete_archive_manifest id => do let _ ← ArchiveManifestStore.delete id
  | commit_archive_atomic entry fact_ids => Archive.commit_archive_atomic entry fact_ids

end MemoryEngine
