import MemoryEngine.Database
import MemoryEngine.Limits

/-! Statements on the `facts` table, each with the exact condition under which
it commits and the exact contents it commits. -/

namespace MemoryEngine
open Time KeyedTable Transaction

/-- What the backend takes from its configuration and from linked libraries:
    the handle's dimension, the BLAKE3 digest of a content cut to 32 hex
    digits, the JSON and the display text of a double, the fused multiply-add
    and the event revisions in force. -/
structure SqliteBackend where
  embed_dim : Nat
  content_hash : String → String
  float_text : SqlReal → String
  display : F64 → String
  mul_add : SqlReal → SqlReal → SqlReal → SqlReal
  latest_revision : EventType → Nat

/-- The row reads back: its vector has the handle's dimension, its texts parse as
    instants and its metadata parses. -/
def Fact.Readable (embed_dim : Nat) (f : Fact) : Prop :=
  f.embedding.length = embed_dim ∧ f.t_created.Readable ∧ f.last_accessed.Readable ∧
    (∀ t ∈ f.t_expired, t.Readable) ∧ (∀ t ∈ f.t_valid, t.Readable) ∧ (∀ t ∈ f.t_invalid, t.Readable) ∧
    (∀ t ∈ f.surfaced_at, t.Readable) ∧ f.metadata.Parses

instance (embed_dim : Nat) (f : Fact) : Decidable (f.Readable embed_dim) :=
  inferInstanceAs (Decidable (_ ∧ _))

def row_to_fact (embed_dim : Nat) : Fact → Except MemoryError Fact := readRow (Fact.Readable embed_dim)

def rows_to_facts (embed_dim : Nat) : List Fact → Except MemoryError (List Fact) := readRows (Fact.Readable embed_dim)

/-- The fact is an active row. -/
def Tables.IsActive (t : Tables) (id : FactId) : Prop := ∃ f ∈ t.facts.rows, f.id = id ∧ f.t_expired = none

instance (t : Tables) (id : FactId) : Decidable (t.IsActive id) :=
  inferInstanceAs (Decidable (∃ f ∈ t.facts.rows, f.id = id ∧ f.t_expired = none))

def Tables.activeFacts (t : Tables) : List Fact := t.facts.rows.filter fun f => f.t_expired.isNone

/-- The ids in use with their creation times. -/
def Tables.births (t : Tables) : List (FactId × DateTime) := t.facts.rows.map fun f => (f.id,f.t_created)

/-- Rewrite the rows of one id. -/
def Tables.updateFact (t : Tables) (id : FactId) (change : Fact → Fact)
    (same : ∀ f, (change f).id = f.id := by intro _; rfl) : Tables :=
  { t with facts := t.facts.update (fun f => f.id == id) change same }

theorem Tables.updateFact_facts (t : Tables) (id : FactId) (change : Fact → Fact) (same : ∀ f, (change f).id = f.id) :
    (t.updateFact id change same).facts = t.facts.update (fun f => f.id == id) change same := rfl

namespace FactStore
variable (self : SqliteBackend)

/-- The row an insertion writes, with the score seeded from the base importance. -/
def newRow (fact : NewFact) (importance : SqlReal) (id : FactId) : Fact where
  id := id
  content := fact.content
  content_hash := self.content_hash fact.content
  embedding := fact.embedding
  fact_type := fact.fact_type
  t_created := fact.t_created
  t_expired := fact.t_expired
  t_valid := fact.t_valid
  t_invalid := fact.t_invalid
  source_event_id := fact.source_event_id
  base_importance := importance
  access_count := fact.access_count
  last_accessed := fact.last_accessed
  metadata := fact.metadata
  scope_id := fact.scope_id
  is_pinned := fact.is_pinned
  importance_score := importance
  surfaced_at := none

theorem newRow_key (fact : NewFact) (importance : SqlReal) (id : FactId) : Row.key (newRow self fact importance id) = id := rfl

def insert (fact : NewFact) : Sql FactId := do
  require (fact.embedding.length = self.embed_dim) (.EmbeddingDimension self.embed_dim fact.embedding.length)
  match fact.base_importance with
  | .nan => throw (.Storage "NOT NULL constraint failed: facts.importance")
  | .num importance =>
    let id ← query (·.facts.nextId)
    execute fun t => { t with facts := t.facts.insert (newRow self fact importance) (newRow_key self fact importance) }
    return id

def get (id : FactId) : Sql Fact := do
  match ← query (·.facts.find id) with
  | some row => row_to_fact self.embed_dim row
  | none => throw (.NotFound s!"fact {id}")

def is_active (id : FactId) : Sql Bool := query fun t => decide (t.IsActive id)

/-- Set columns of an active row, or fail when the id has none. -/
def updateActive (id : FactId) (change : Fact → Fact) (same : ∀ f, (change f).id = f.id) : Sql Unit := do
  let found ← query fun t => decide (t.IsActive id)
  execute fun t => { t with facts := t.facts.update (fun f => f.id == id && f.t_expired.isNone) change same }
  require (found = true) (.NotFound s!"fact {id}")

def expire (id : FactId) (now : DateTime) : Sql Unit :=
  updateActive id (fun f => { f with t_expired := some now }) (fun _ => rfl)

def expire_and_invalidate (id : FactId) (now : DateTime) : Sql Unit :=
  updateActive id (fun f => { f with t_expired := some now, t_invalid := some now }) (fun _ => rfl)

/-- Set columns of a row, or fail when the id has none. -/
def updateRow (id : FactId) (change : Fact → Fact) (same : ∀ f, (change f).id = f.id) : Sql Unit := do
  let found ← query fun t => decide (t.facts.Has id)
  execute fun t => t.updateFact id change same
  require (found = true) (.NotFound s!"fact {id}")

def update_base_importance (id : FactId) (base_importance : F64) : Sql Unit :=
  match base_importance with
  | .nan => do
    -- the NULL breaks the column constraint only where a row is updated
    let found ← query fun t => decide (t.facts.Has id)
    if found then throw (.Storage "NOT NULL constraint failed: facts.importance")
    else throw (.NotFound s!"fact {id}")
  | .num importance => updateRow id (fun f => { f with base_importance := importance }) (fun _ => rfl)

def set_pinned (id : FactId) (pinned : Bool) : Sql Unit := updateRow id (fun f => { f with is_pinned := pinned }) (fun _ => rfl)

def setScore (scores : List (FactId × F64)) (f : Fact) : Fact :=
  match scores.reverse.find? (fun entry => entry.1 == f.id) with
  | some (_,.num score) => { f with importance_score := score }
  | _ => f

theorem setScore_id (scores : List (FactId × F64)) (f : Fact) : (setScore scores f).id = f.id := by
  unfold setScore
  split <;> rfl

/-- Later entries win over earlier ones of the same id, as in the JSON object
    the batch is sent as; a non-finite score rejects the batch. -/
def update_importance_scores_bulk (scores : List (FactId × F64)) : Sql Unit :=
  match scores.find? (fun entry => !entry.2.is_finite) with
  | some (id,score) => throw (.Conflict (.PolicyParameter
      s!"importance score must be finite, got {self.display score} for fact {id}"))
  | none => execute fun t => { t with facts := t.facts.update (fun _ => true) (setScore scores) (setScore_id scores) }

/-- Overwrite the keys of a metadata object; other metadata counts as empty. -/
def mergedMetadata (metadata : Json) (patch : List (String × Json)) : Json :=
  .obj (Json.mergeFields metadata.fields patch)

/-- The stored metadata must parse before keys are written into it. -/
def requireMetadata (id : FactId) : Sql Unit := do
  match ← query (·.facts.find id) with
  | some row => require row.metadata.Parses (.Serialization "recursion limit exceeded")
  | none => throw (.NotFound s!"fact {id}")

def merge_metadata (id : FactId) (patch : Json) : Sql Unit :=
  match patch with
  | .obj fields => do
    requireMetadata id
    updateRow id (fun f => { f with metadata := mergedMetadata f.metadata fields }) (fun _ => rfl)
  | _ => throw (.Internal "merge_metadata patch must be a JSON object")

def mark_dream_cycled (ids : List FactId) (cycle_id : Nat) (now : DateTime) : Sql Unit :=
  ids.foldlM (fun _ id => merge_metadata id
    (.obj [("dream_cycle",.obj [("cycle_id",.int cycle_id),("cycled_at",.str now.to_rfc3339)])])) ()

/-- An active fact that is neither pinned nor stamped by a cycle. -/
def callerWritten (f : Fact) : Bool := f.t_expired.isNone && !f.is_pinned && !f.metadata.hasKey "dream_cycle"

def max_caller_written_fact_id : Sql (Option FactId) :=
  query fun t => ((t.facts.rows.filter callerWritten).map Fact.id).max?

/-- Merging keeps every key and adds those of the patch. -/
theorem hasKey_mergedMetadata (key : String) (metadata : Json) (patch : List (String × Json)) :
    (mergedMetadata metadata patch).hasKey key = (metadata.hasKey key || patch.any (fun entry => entry.1 == key)) :=
  Json.any_mergeFields key metadata.fields patch

theorem mergedMetadata_parses {metadata : Json} {patch : List (String × Json)} (parses : metadata.Parses)
    (shallow : (Json.obj patch).Parses) : (mergedMetadata metadata patch).Parses := by
  have merged := Json.fieldDepth_mergeFields metadata.fields patch
  have held := Json.fieldDepth_fields metadata
  unfold Json.Parses Json.depth at shallow
  unfold Json.Parses at parses
  unfold Json.Parses mergedMetadata Json.depth
  cases metadata <;> simp only [Json.fields,Json.fieldDepth,Json.depth] at * <;> omega

variable {self}

theorem commits_insert {fact : NewFact} {db db' : Db} {id : FactId} :
    Commits (insert self fact) db id db' ↔ fact.embedding.length = self.embed_dim ∧
      ∃ importance, fact.base_importance = .num importance ∧ id = db.facts.nextId ∧
        db'.toTables = { db.toTables with
          facts := db.facts.insert (newRow self fact importance) (newRow_key self fact importance) } := by
  cases given : fact.base_importance with
  | nan => simp [insert,commits_bind,given]
  | num importance =>
    simp only [insert,given,commits_bind,commits_require,commits_query,commits_execute,commits_pure]
    constructor
    · rintro ⟨_,_,⟨sized,rfl⟩,_,_,⟨rfl,rfl⟩,_,_,written,rfl,rfl⟩
      exact ⟨sized,importance,rfl,rfl,written⟩
    · rintro ⟨sized,_,same,rfl,written⟩
      cases same
      exact ⟨(),_,⟨sized,rfl⟩,_,_,⟨rfl,rfl⟩,(),_,written,rfl,rfl⟩

theorem commits_get {id : FactId} {db db' : Db} {f : Fact} :
    Commits (get self id) db f db' ↔ db.facts.find id = some f ∧ f.Readable self.embed_dim ∧ db' = db := by
  simp only [get,commits_bind,commits_query]
  constructor
  · rintro ⟨_,m,⟨rfl,rfl⟩,rest⟩
    cases found : m.facts.find id with
    | none => rw [found] at rest; exact absurd rest commits_throw
    | some row =>
      rw [found] at rest
      obtain ⟨read,rfl⟩ := commits_lift.mp rest
      obtain ⟨rfl,readable⟩ := readRow_ok.mp read
      exact ⟨rfl,readable,rfl⟩
  · rintro ⟨found,readable,rfl⟩
    refine ⟨_,_,⟨rfl,rfl⟩,?_⟩
    rw [found]
    exact commits_lift.mpr ⟨readRow_ok.mpr ⟨rfl,readable⟩,rfl⟩

@[simp] theorem commits_is_active {id : FactId} {db db' : Db} {b : Bool} :
    Commits (is_active id) db b db' ↔ b = decide (db.IsActive id) ∧ db' = db := commits_query

theorem commits_updateActive {id : FactId} {change : Fact → Fact} {same : ∀ f, (change f).id = f.id} {db db' : Db} {u : Unit} :
    Commits (updateActive id change same) db u db' ↔ db.IsActive id ∧
      db'.toTables = { db.toTables with
        facts := db.facts.update (fun f => f.id == id && f.t_expired.isNone) change same } := by
  simp only [updateActive,commits_bind,commits_query,commits_execute,commits_require]
  constructor
  · rintro ⟨_,_,⟨rfl,rfl⟩,_,_,written,active,rfl⟩
    exact ⟨by simpa using active,written⟩
  · rintro ⟨active,written⟩
    exact ⟨_,_,⟨rfl,rfl⟩,(),_,written,by simpa using active,rfl⟩

theorem commits_updateRow {id : FactId} {change : Fact → Fact} {same : ∀ f, (change f).id = f.id} {db db' : Db} {u : Unit} :
    Commits (updateRow id change same) db u db' ↔ db.facts.Has id ∧ db'.toTables = db.updateFact id change same := by
  simp only [updateRow,commits_bind,commits_query,commits_execute,commits_require]
  constructor
  · rintro ⟨_,_,⟨rfl,rfl⟩,_,_,written,found,rfl⟩
    exact ⟨by simpa using found,written⟩
  · rintro ⟨found,written⟩
    exact ⟨_,_,⟨rfl,rfl⟩,(),_,written,by simpa using found,rfl⟩

theorem commits_requireMetadata {id : FactId} {db db' : Db} {u : Unit} :
    Commits (requireMetadata id) db u db' ↔ (∃ f ∈ db.facts.rows, f.id = id ∧ f.metadata.Parses) ∧ db' = db := by
  simp only [requireMetadata,commits_bind,commits_query]
  constructor
  · rintro ⟨_,m,⟨rfl,rfl⟩,rest⟩
    cases found : m.facts.find id with
    | none => rw [found] at rest; exact absurd rest commits_throw
    | some row =>
      rw [found] at rest
      obtain ⟨parses,rfl⟩ := commits_require.mp rest
      obtain ⟨member,same⟩ := Table.find_eq_some.mp found
      exact ⟨⟨row,member,same,parses⟩,rfl⟩
  · rintro ⟨⟨row,member,same,parses⟩,rfl⟩
    refine ⟨_,_,⟨rfl,rfl⟩,?_⟩
    rw [Table.find_eq_some.mpr ⟨member,same⟩]
    exact commits_require.mpr ⟨parses,rfl⟩

theorem commits_merge_metadata {id : FactId} {fields : List (String × Json)} {db db' : Db} {u : Unit} :
    Commits (merge_metadata id (.obj fields)) db u db' ↔ (∃ f ∈ db.facts.rows, f.id = id ∧ f.metadata.Parses) ∧
      db'.toTables = db.updateFact id (fun f => { f with metadata := mergedMetadata f.metadata fields }) := by
  simp only [merge_metadata,commits_bind,commits_requireMetadata,commits_updateRow]
  constructor
  · rintro ⟨_,_,⟨held,rfl⟩,_,written⟩
    exact ⟨held,written⟩
  · rintro ⟨⟨f,member,same,parses⟩,written⟩
    exact ⟨(),_,⟨⟨f,member,same,parses⟩,rfl⟩,⟨f,member,same⟩,written⟩

end FactStore
end MemoryEngine
