import MemoryEngine.EdgeStore
import MemoryEngine.FactVectors
import MemoryEngine.Ranking
import MemoryEngine.SidecarStores
import Mathlib.Data.Prod.Lex
import Mathlib.Data.String.Basic

/-! The dump. Each section of the snapshot is streamed row by row and ends with the
first row that does not read back. -/

namespace MemoryEngine
open Time KeyedTable Transaction Ranking

def Summary.Readable (embed_dim : Nat) (s : Summary) : Prop := s.embedding.length = embed_dim ∧ s.created_at.Readable

instance (embed_dim : Nat) (s : Summary) : Decidable (s.Readable embed_dim) := inferInstanceAs (Decidable (_ ∧ _))

def Event.Readable (e : Event) : Prop :=
  e.timestamp.Readable ∧ e.payload.Parses ∧ (∀ t ∈ e.created_at, t.Readable) ∧ e.event_revision < 2 ^ 16

instance (e : Event) : Decidable e.Readable := inferInstanceAs (Decidable (_ ∧ _))

/-- A confidence that is not finite is stored as null. -/
def LineageRow.Readable (l : LineageRow) : Prop := l.provenance.confidence.is_finite = true

instance (l : LineageRow) : Decidable l.Readable := inferInstanceAs (Decidable (_ = _))

/-- The rows that a `for_each` hands to its callback. -/
def FactStore.for_each (embed_dim : Nat) : Sql (List Fact) := do
  let rows ← query (·.facts.rows)
  rows_to_facts embed_dim rows

def EdgeStore.for_each : Sql (List Edge) := do
  let rows ← query (·.edges.rows)
  rows_to_edges rows

namespace SummaryStore
variable (embed_dim : Nat)

def rows_to_summaries : List Summary → Except MemoryError (List Summary) := readRows (Summary.Readable embed_dim)

def list_by_level (level : ConsolidationLevel) : Sql (List Summary) := do
  let rows ← query fun t => t.summaries.rows.filter (fun s => s.level == level)
  rows_to_summaries embed_dim rows

def for_each : Sql (List Summary) := do
  let rows ← query (·.summaries.rows)
  rows_to_summaries embed_dim rows

end SummaryStore

def ScopeStore.for_each : Sql (List ScopeNode) := query (·.scopes.rows)

/-- Ascending by the text of the timestamp. -/
def EventStore.byTime (e : Event) : Stringᵒᵈ := OrderDual.toDual e.timestamp.to_rfc3339

def EventStore.for_each : Sql (List Event) := do
  let rows ← query fun t => descending byTime t.events.rows
  readRows Event.Readable rows

def LineageStore.for_each : Sql (List LineageRow) := do
  let rows ← query (·.lineage.rows)
  readRows LineageRow.Readable rows

/-- Oldest first; the column of the creation times stands beside the tables. -/
def EmbeddingSpaces.byAge (created_at : String → String) (s : EmbeddingSpace) : (String ×ₗ String)ᵒᵈ :=
  OrderDual.toDual (toLex (created_at s.name,s.name))

def EmbeddingSpaces.list_spaces (created_at : String → String) : Sql (List EmbeddingSpace) :=
  query fun t => descending (byAge created_at) t.embedding_spaces

namespace FactVectors

/-- The dimension of the named space, else that of the handle. -/
def spaceDim (embed_dim : Nat) (spaces : List EmbeddingSpace) (space_id : String) : Nat :=
  ((spaces.find? fun s => s.name == space_id).map fun s => s.fingerprint.dim).getD embed_dim

def readVector (embed_dim : Nat) (spaces : List EmbeddingSpace) (v : FactVector) : Except MemoryError FactVector :=
  if v.embedding.length = spaceDim embed_dim spaces v.space_id then .ok v
  else .error (.EmbeddingDimension (spaceDim embed_dim spaces v.space_id) v.embedding.length)

def readVectors (embed_dim : Nat) (spaces : List EmbeddingSpace) (rows : List FactVector) : Except MemoryError (List FactVector) :=
  rows.mapM (readVector embed_dim spaces)

def bySpace (v : FactVector) : (String ×ₗ FactId)ᵒᵈ := OrderDual.toDual (toLex (v.space_id,v.fact_id))

/-- Each vector at the dimension of its own space. -/
def for_each (created_at : String → String) (embed_dim : Nat) : Sql (List FactVector) := do
  let spaces ← EmbeddingSpaces.list_spaces created_at
  let rows ← query fun t => descending bySpace t.fact_vectors
  readVectors embed_dim spaces rows

end FactVectors

/-- In the order of the keys. -/
def Config.list_config : Sql (List (String × String)) := query fun t => descending (fun entry => OrderDual.toDual entry.1) t.config

def SpaceStatus.as_sql : SpaceStatus → String
  | .Active => "active"
  | .Populating => "populating"
  | .Deprecated => "deprecated"

def SpaceStatus.from_sql (s : String) : Except MemoryError SpaceStatus :=
  if s = "active" then .ok .Active else
  if s = "populating" then .ok .Populating else
  if s = "deprecated" then .ok .Deprecated else .error (.Migration s!"corrupt embedding_spaces.status: {s}")

/-- A registry row of a snapshot, without the creation time. -/
structure EmbeddingSpaceSnapshot where
  name : String
  status : String
  fingerprint : EmbeddingFingerprint

def EmbeddingSpace.snapshot (s : EmbeddingSpace) : EmbeddingSpaceSnapshot := ⟨s.name,s.status.as_sql,s.fingerprint⟩

structure EngineSnapshot where
  schema_version : Nat
  storage_epoch : Nat
  embed_dim : Nat
  facts : List Fact
  edges : List Edge
  summaries : List Summary
  scopes : List ScopeNode
  events : List Event
  lineage : List LineageRow
  embedding_spaces : List EmbeddingSpaceSnapshot
  fact_vectors : List FactVector
  config : List (String × String)

/-- The digits of a number below a bound, perhaps after a plus sign. -/
def parseNumber (bound : Nat) (text : String) : Option Nat :=
  let digits := match text.toList with
    | '+' :: rest => rest
    | chars => chars
  if digits = [] then none else
    (digits.foldlM (fun (n : Nat) (c : Char) =>
      if c.isDigit then some (10 * n + (c.toNat - '0'.toNat)) else none) 0).filter fun n => decide (n < bound)

/-- What a configuration value spells, zero where it spells no number. -/
def configNumber (bound : Nat) (value : Option String) : Nat := (value.bind (parseNumber bound)).getD 0

example : configNumber (2 ^ 32) (some "14") = 14 := by decide

/-- Events are dumped as stored. -/
def stream_snapshot (created_at : String → String) (embed_dim : Nat) : Sql EngineSnapshot := do
  let schema_version ← Config.get_config "schema_version"
  let storage_epoch ← Config.get_config "storage_epoch"
  let spaces ← EmbeddingSpaces.list_spaces created_at
  let config ← Config.list_config
  let facts ← FactStore.for_each embed_dim
  let edges ← EdgeStore.for_each
  let summaries ← SummaryStore.for_each embed_dim
  let scopes ← ScopeStore.for_each
  let events ← EventStore.for_each
  let lineage ← LineageStore.for_each
  let fact_vectors ← FactVectors.for_each created_at embed_dim
  return ⟨configNumber (2 ^ 32) schema_version,configNumber (2 ^ 16) storage_epoch,embed_dim,facts,edges,summaries,scopes,events,lineage,
    spaces.map EmbeddingSpace.snapshot,fact_vectors,config⟩

theorem SpaceStatus.from_as_sql (status : SpaceStatus) : SpaceStatus.from_sql status.as_sql = .ok status := by
  cases status <;> rfl

/-- Every vector of a space has the dimension of the space. -/
def Tables.VectorsSized (t : Tables) : Prop :=
  ∀ v ∈ t.fact_vectors, ∀ s ∈ t.embedding_spaces, s.name = v.space_id → v.embedding.length = s.fingerprint.dim

/-- The rows that a handle of the dimension can read. -/
structure Tables.Legible (embed_dim : Nat) (t : Tables) : Prop where
  facts : ∀ f ∈ t.facts.rows, f.Readable embed_dim
  edges : ∀ e ∈ t.edges.rows, e.Readable
  summaries : ∀ s ∈ t.summaries.rows, s.Readable embed_dim
  events : ∀ e ∈ t.events.rows, e.Readable
  lineage : ∀ l ∈ t.lineage.rows, l.Readable
  vectors : t.VectorsSized

/-- What a dump holds. -/
def Tables.snapshot (created_at : String → String) (embed_dim : Nat) (t : Tables) : EngineSnapshot where
  schema_version := configNumber (2 ^ 32) (t.config.lookup "schema_version")
  storage_epoch := configNumber (2 ^ 16) (t.config.lookup "storage_epoch")
  embed_dim := embed_dim
  facts := t.facts.rows
  edges := t.edges.rows
  summaries := t.summaries.rows
  scopes := t.scopes.rows
  events := descending EventStore.byTime t.events.rows
  lineage := t.lineage.rows
  embedding_spaces := (descending (EmbeddingSpaces.byAge created_at) t.embedding_spaces).map EmbeddingSpace.snapshot
  fact_vectors := descending FactVectors.bySpace t.fact_vectors
  config := descending (fun entry => OrderDual.toDual entry.1) t.config

namespace SummaryStore
variable {embed_dim : Nat} {s t : Db} {rows : List Summary}

theorem commits_list_by_level {level : ConsolidationLevel} : Commits (list_by_level embed_dim level) s rows t ↔
    rows = s.summaries.rows.filter (fun s => s.level == level) ∧ (∀ row ∈ rows, row.Readable embed_dim) ∧ t = s := by
  refine commits_readRows.trans ?_
  constructor
  · rintro ⟨rfl,readable,same⟩
    exact ⟨rfl,readable,same⟩
  · rintro ⟨rfl,readable,same⟩
    exact ⟨rfl,readable,same⟩

theorem commits_for_each : Commits (for_each embed_dim) s rows t ↔
    rows = s.summaries.rows ∧ (∀ row ∈ s.summaries.rows, row.Readable embed_dim) ∧ t = s := commits_readRows

end SummaryStore

namespace FactVectors

/-- The space of a vector is registered, so its own dimension is the one that counts. -/
theorem spaceDim_eq (s : Db) (embed_dim : Nat) {spaces : List EmbeddingSpace} (same : spaces.Perm s.embedding_spaces)
    {v : FactVector} (held : v ∈ s.fact_vectors) : ∃ owner ∈ s.embedding_spaces, owner.name = v.space_id ∧
      spaceDim embed_dim spaces v.space_id = owner.fingerprint.dim := by
  obtain ⟨owner,here,named⟩ := s.foreign.vector_space v held
  refine ⟨owner,here,named,?_⟩
  unfold spaceDim
  cases found : spaces.find? fun sp => sp.name == v.space_id with
  | none => exact absurd (List.find?_eq_none.mp found owner (same.mem_iff.mpr here)) (by simp [named])
  | some other =>
    have called : other.name = v.space_id := by simpa using List.find?_some found
    rw [space_name_unique s (same.mem_iff.mp (List.mem_of_find?_eq_some found)) here (called.trans named.symm)]
    rfl

theorem readVector_ok {embed_dim : Nat} {spaces : List EmbeddingSpace} {v read : FactVector} :
    readVector embed_dim spaces v = .ok read ↔ read = v ∧ v.embedding.length = spaceDim embed_dim spaces v.space_id := by
  unfold readVector
  by_cases fits : v.embedding.length = spaceDim embed_dim spaces v.space_id
  · simp [fits,eq_comm]
  · simp [fits]

theorem readVectors_ok {embed_dim : Nat} {spaces : List EmbeddingSpace} {rows read : List FactVector} :
    readVectors embed_dim spaces rows = .ok read ↔
      read = rows ∧ ∀ v ∈ rows, v.embedding.length = spaceDim embed_dim spaces v.space_id :=
  mapM_check fun _ _ => readVector_ok

theorem commits_for_each {created_at : String → String} {embed_dim : Nat} {s t : Db} {rows : List FactVector} :
    Commits (for_each created_at embed_dim) s rows t ↔
      rows = descending bySpace s.fact_vectors ∧ s.VectorsSized ∧ t = s := by
  have listed : (descending (EmbeddingSpaces.byAge created_at) s.embedding_spaces).Perm s.embedding_spaces := descending_perm _ _
  have sized : (∀ v ∈ descending bySpace s.fact_vectors, v.embedding.length =
      spaceDim embed_dim (descending (EmbeddingSpaces.byAge created_at) s.embedding_spaces) v.space_id) ↔
        s.VectorsSized := by
    refine forall_congr' fun v => ?_
    rw [mem_descending]
    refine forall_congr' fun held => ?_
    obtain ⟨owner,here,named,dim⟩ := spaceDim_eq s embed_dim listed held
    rw [dim]
    constructor
    · intro fits other there called
      rw [space_name_unique s there here (called.trans named.symm)]
      exact fits
    · intro fits
      exact fits owner here named
  simp only [for_each,EmbeddingSpaces.list_spaces,commits_bind,commits_query,commits_lift,readVectors_ok]
  constructor
  · rintro ⟨_,_,⟨rfl,rfl⟩,_,_,⟨rfl,rfl⟩,⟨rfl,fits⟩,rfl⟩
    exact ⟨rfl,sized.mp fits,rfl⟩
  · rintro ⟨rfl,fits,rfl⟩
    exact ⟨_,_,⟨rfl,rfl⟩,_,_,⟨rfl,rfl⟩,⟨rfl,sized.mpr fits⟩,rfl⟩

end FactVectors

/-- A dump succeeds exactly when the handle can read every row, and holds them all. -/
theorem commits_stream_snapshot {created_at : String → String} {embed_dim : Nat} {s t : Db} {snapshot : EngineSnapshot} :
    Commits (stream_snapshot created_at embed_dim) s snapshot t ↔
      s.Legible embed_dim ∧ snapshot = s.snapshot created_at embed_dim ∧ t = s := by
  unfold stream_snapshot
  simp only [Config.get_config,EmbeddingSpaces.list_spaces,Config.list_config,ScopeStore.for_each,commits_bind,commits_query]
  constructor
  · rintro ⟨_,_,⟨rfl,rfl⟩,_,_,⟨rfl,rfl⟩,_,_,⟨rfl,rfl⟩,_,_,⟨rfl,rfl⟩,_,_,facts,_,_,edges,_,_,summaries,_,_,⟨rfl,rfl⟩,_,_,events,_,_,lineage,
      _,_,vectors,last⟩
    obtain ⟨rfl,facts,rfl⟩ := commits_readRows.mp facts
    obtain ⟨rfl,edges,rfl⟩ := commits_readRows.mp edges
    obtain ⟨rfl,summaries,rfl⟩ := SummaryStore.commits_for_each.mp summaries
    obtain ⟨rfl,events,rfl⟩ := commits_readRows.mp events
    obtain ⟨rfl,lineage,rfl⟩ := commits_readRows.mp lineage
    obtain ⟨rfl,vectors,rfl⟩ := FactVectors.commits_for_each.mp vectors
    obtain ⟨rfl,rfl⟩ := commits_pure.mp last
    exact ⟨⟨facts,edges,summaries,fun e listed => events e (mem_descending.mpr listed),lineage,vectors⟩,rfl,rfl⟩
  · rintro ⟨legible,rfl,rfl⟩
    refine ⟨_,_,⟨rfl,rfl⟩,_,_,⟨rfl,rfl⟩,_,_,⟨rfl,rfl⟩,_,_,⟨rfl,rfl⟩,_,_,commits_readRows.mpr ⟨rfl,legible.facts,rfl⟩,
      _,_,commits_readRows.mpr ⟨rfl,legible.edges,rfl⟩,_,_,SummaryStore.commits_for_each.mpr ⟨rfl,legible.summaries,rfl⟩,
      _,_,⟨rfl,rfl⟩,_,_,commits_readRows.mpr ⟨rfl,?_,rfl⟩,_,_,commits_readRows.mpr ⟨rfl,legible.lineage,rfl⟩,
      _,_,FactVectors.commits_for_each.mpr ⟨rfl,legible.vectors,rfl⟩,commits_pure.mpr ⟨rfl,rfl⟩⟩
    intro e listed
    exact legible.events e (mem_descending.mp listed)

end MemoryEngine
