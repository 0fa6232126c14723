import MemoryEngine.Ingest

/-! Bootstrap. Historical sessions and memory files come in with the times of their
turns; a fact that is active already is reinforced instead of stored again, and a
session is imported at most once. -/

namespace MemoryEngine
open Time KeyedTable Transaction

structure EventFilter where
  since : Option DateTime := none
  until_ : Option DateTime := none
  session_id : Option String := none
  event_type : Option EventType := none
  source : Option String := none
  limit : Option Nat := none
  id_min : Option Int := none
  id_max : Option Int := none
  order_by_id : Bool := false

/-- The earlier and the later of two instants by the order of their texts. -/
def textMin (a b : DateTime) : DateTime := if b.textLt a then b else a
def textMax (a b : DateTime) : DateTime := if a.textLt b then b else a

namespace EventFilter

/-- The WHERE clauses of a filter. -/
def admits (filter : EventFilter) (e : Event) : Bool :=
  filter.since.all (fun since => !e.timestamp.textLt since) && filter.until_.all (fun last => !last.textLt e.timestamp) &&
    filter.session_id.all (fun id => e.session_id == some id) && filter.event_type.all (fun kind => e.event_type == kind) &&
      filter.source.all (fun source => e.source == source) && filter.id_min.all (fun low => low ≤ e.id) &&
        filter.id_max.all (fun high => e.id ≤ high)

end EventFilter

/-- The limit counts rows of the result, and a count is one row. -/
def EventStore.count (filter : EventFilter) : Sql Nat := do
  require (filter.limit ≠ some 0) (.Storage "Query returned no rows")
  query fun t => t.events.rows.countP filter.admits

/-- A fact extracted from a session or a memory file, embedded. -/
structure PreparedFact where
  content : String
  embedding : Embedding
  fact_type : FactType
  effective_created : DateTime
  importance : F64
  metadata : Json
  scope_id : Int
  is_pinned : Bool

/-- The creation time is that of the turn; the marker event is linked later. -/
def PreparedFact.newFact (fact : PreparedFact) : NewFact where
  content := fact.content
  content_hash := ""
  embedding := fact.embedding
  fact_type := fact.fact_type
  t_created := fact.effective_created
  t_expired := none
  t_valid := none
  t_invalid := none
  source_event_id := none
  base_importance := fact.importance
  access_count := 0
  last_accessed := fact.effective_created
  metadata := fact.metadata
  scope_id := fact.scope_id
  is_pinned := fact.is_pinned

namespace FactStore
variable (self : SqliteBackend)

/-- The first active fact of the same content in the same scope. -/
def existing (fact : NewFact) (t : Tables) : Option FactId :=
  (t.facts.rows.find? fun f => f.content_hash == self.content_hash fact.content && f.content == fact.content &&
    f.scope_id == fact.scope_id && f.t_expired.isNone).map Fact.id

/-- Another occurrence of a fact: the span of its times widens, and the stronger pin
    and importance stay. -/
def reinforced (fact : NewFact) (importance : SqlReal) (f : Fact) : Fact :=
  { f with
    access_count := f.access_count + 1
    t_created := textMin f.t_created fact.t_created
    last_accessed := textMax f.last_accessed fact.last_accessed
    is_pinned := f.is_pinned || fact.is_pinned
    base_importance := max f.base_importance importance }

theorem reinforced_id (fact : NewFact) (importance : SqlReal) (f : Fact) : (reinforced fact importance f).id = f.id := by
  simp only [reinforced]

theorem reinforced_times (fact : NewFact) (importance : SqlReal) (f : Fact) : (reinforced fact importance f).t_expired = f.t_expired ∧
    (reinforced fact importance f).t_created = textMin f.t_created fact.t_created := by
  simp only [reinforced,and_self]

def reinforce (fact : NewFact) (id : FactId) : Sql Unit :=
  match fact.base_importance with
  | .nan => throw (.Storage "NOT NULL constraint failed: facts.importance")
  | .num importance => execute fun t => t.updateFact id (reinforced fact importance) (reinforced_id fact importance)

/-- The flag tells a reinforcement from an insertion. -/
def insert_or_reinforce (fact : NewFact) : Sql (FactId × Bool) := do
  require (fact.embedding.length = self.embed_dim) (.EmbeddingDimension self.embed_dim fact.embedding.length)
  match ← query (existing self fact) with
  | some id => do
    reinforce fact id
    return (id,true)
  | none => do
    let id ← insert self fact
    return (id,false)

end FactStore

inductive BootstrapIngestOutcome where
  | Skipped
  | Ingested (flags : List (FactId × Bool))

namespace Bootstrap
variable (self : SqliteBackend)

/-- The predicate that the marker event of a session satisfies. -/
def bootstrap_marker_filter (session_id : String) : EventFilter := { session_id := some session_id, source := some "bootstrap" }

/-- Facts adopt the marker event as their source. -/
def linked (marker_id : Option Int) (fact : NewFact) : NewFact :=
  match marker_id with
  | some id => { fact with source_event_id := some id }
  | none => fact

def ingestFacts (marker_id : Option Int) (facts : List NewFact) : Sql (List (FactId × Bool)) :=
  facts.foldlM (fun out fact => do
    let flag ← FactStore.insert_or_reinforce self (linked marker_id fact)
    return out ++ [flag]) []

def insertMarker : Option NewEvent → Sql (Option Int)
  | some marker => do return some (← EventStore.insert self marker)
  | none => return none

/-- The marker, the facts and, with a new one among them, the embedding identity. -/
def ingestMarked (marker : Option NewEvent) (facts : List NewFact) (fingerprint : EmbeddingFingerprint) (expected_dim : Nat) :
    Sql BootstrapIngestOutcome := do
  let marker_id ← insertMarker self marker
  let out ← ingestFacts self marker_id facts
  guarded (out.any (fun flag => !flag.2) = true) do let _ ← EmbeddingMeta.record_if_absent fingerprint expected_dim
  return .Ingested out

/-- An event that the filter admits makes the batch a no-op. -/
def ingest_bootstrap_batch_atomic (marker : Option NewEvent) (skip_if_present : Option EventFilter) (facts : List NewFact)
    (fingerprint : EmbeddingFingerprint) (expected_dim : Nat) : Sql BootstrapIngestOutcome :=
  match skip_if_present with
  | some filter => do
    let present ← EventStore.count filter
    if present > 0 then return .Skipped else ingestMarked self marker facts fingerprint expected_dim
  | none => ingestMarked self marker facts fingerprint expected_dim

end Bootstrap

open Bootstrap

/-- The early way out of a session that was imported before. -/
def alreadyBootstrapped (skip_filter : Option EventFilter) : Op Bool :=
  match skip_filter with
  | some filter => do return (← port (EventStore.count filter)) > 0
  | none => return false

/-- Import one session. Parsing, extraction and embedding come as one function of the
    scope; the report is reduced to the outcome of the ingest. -/
def bootstrap_session (ctx : MemoryCtx) (scope : Option String) (session_id : String) (skip_existing : Bool)
    (prepare : Int → Except MemoryError (NewEvent × List PreparedFact)) (fingerprint : EmbeddingFingerprint) :
    Op BootstrapIngestOutcome := do
  ctx.ensure_open
  ctx.ensure_writable
  let scope_id ← factScope scope
  if session_id = "" then return .Skipped else do
    let skip_filter := if skip_existing then some (bootstrap_marker_filter session_id) else none
    if ← alreadyBootstrapped skip_filter then return .Skipped else do
      let (marker,facts) ← prepare scope_id
      port (ingest_bootstrap_batch_atomic ctx.backend (some marker) skip_filter (facts.map PreparedFact.newFact) fingerprint
        ctx.backend.embed_dim)

/-- One file of a memory directory: a batch of one fact without a marker. -/
def bootstrap_memory_file (ctx : MemoryCtx) (fact : PreparedFact) (fingerprint : EmbeddingFingerprint) : Op BootstrapIngestOutcome :=
  port (ingest_bootstrap_batch_atomic ctx.backend none none [fact.newFact] fingerprint ctx.backend.embed_dim)

end MemoryEngine
