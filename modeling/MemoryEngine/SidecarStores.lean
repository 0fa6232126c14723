import MemoryEngine.EmbeddingSpaces

/-! The tables beside facts and edges: events, lineage, summaries, the archive
manifest and the configuration. None of these statements touches facts,
edges, scopes or the embedding spaces. -/

namespace MemoryEngine
open Time KeyedTable Transaction

/-- What no statement of this module changes. -/
def SameCore (t t' : Tables) : Prop :=
  t'.facts = t.facts ∧ t'.edges = t.edges ∧ t'.scopes = t.scopes ∧ t'.embedding_spaces = t.embedding_spaces ∧
    t'.fact_vectors = t.fact_vectors ∧ t'.activities = t.activities

theorem SameCore.refl (t : Tables) : SameCore t t := ⟨rfl,rfl,rfl,rfl,rfl,rfl⟩

theorem SameCore.trans {t m t' : Tables} (first : SameCore t m) (second : SameCore m t') : SameCore t t' :=
  ⟨second.1.trans first.1,second.2.1.trans first.2.1,second.2.2.1.trans first.2.2.1,
    second.2.2.2.1.trans first.2.2.2.1,second.2.2.2.2.1.trans first.2.2.2.2.1,second.2.2.2.2.2.trans first.2.2.2.2.2⟩

/-- Every commit leaves the core tables alone. -/
abbrev KeepsCore {α : Type} (x : Sql α) : Prop := Keeps (fun s t : Db => SameCore s.toTables t.toTables) x

theorem keepsCore_execute {change : Tables → Tables} (same : ∀ t, SameCore t (change t)) : KeepsCore (execute change) := by
  intro s u t committed
  rw [commits_execute.mp committed]
  exact same s.toTables

theorem keepsCore_query {α : Type} {read : Tables → α} : KeepsCore (query read) := by
  intro s a t committed
  rw [(commits_query.mp committed).2]
  exact SameCore.refl _

theorem keepsCore_require {p : Prop} [Decidable p] {error : MemoryError} : KeepsCore (require p error) := by
  intro s a t committed
  rw [(commits_require.mp committed).2]
  exact SameCore.refl _

theorem keepsCore_pure {α : Type} (a : α) : KeepsCore (pure a) := Keeps.pure (fun s => SameCore.refl s.toTables) a

theorem keepsCore_bind {α β : Type} {x : Sql α} {f : α → Sql β} (first : KeepsCore x) (rest : ∀ a, KeepsCore (f a)) :
    KeepsCore (x >>= f) := by
  refine Keeps.bind ?_ first rest
  exact fun s m t left right => left.trans right

namespace EventStore
variable (self : SqliteBackend)

def newRow (event : NewEvent) (id : Int) : Event where
  id := id
  timestamp := event.timestamp
  event_type := event.event_type
  payload := event.payload
  source := event.source
  session_id := event.session_id
  scope_id := event.scope_id
  origin_node_id := event.origin_node_id
  sequence_id := event.sequence_id
  created_at := event.created_at
  event_revision := self.latest_revision event.event_type

theorem newRow_key (event : NewEvent) (id : Int) : Row.key (newRow self event id) = id := rfl

def insert (event : NewEvent) : Sql Int := do
  let id ← query (·.events.nextId)
  execute fun t => { t with events := t.events.insert (newRow self event) (newRow_key self event) }
  return id

theorem keepsCore_insert (event : NewEvent) : KeepsCore (insert self event) :=
  keepsCore_bind keepsCore_query fun _ => keepsCore_bind
    (keepsCore_execute fun _ => ⟨rfl,rfl,rfl,rfl,rfl,rfl⟩) fun _ => keepsCore_pure _

end EventStore

namespace LineageStore

def newRow (record : NewLineageRecord) (provenance : PromotionProvenance) (id : Int) : LineageRow :=
  ⟨id,record.wisdom_fact_id,record.source_fact_ids,provenance⟩

theorem newRow_key (record : NewLineageRecord) (provenance : PromotionProvenance) (id : Int) :
    Row.key (newRow record provenance id) = id := rfl

/-- The wisdom fact must be active and every source must exist. -/
def insert (record : NewLineageRecord) (provenance : PromotionProvenance) : Sql Int := do
  let active ← query fun t => decide (t.IsActive record.wisdom_fact_id)
  require (active = true) (.Lineage
    s!"wisdom fact {record.wisdom_fact_id} does not exist or is expired; cannot record lineage")
  let found ← query fun t => (record.source_fact_ids.dedup.filter (fun id => decide (t.facts.Has id))).length
  require (found = record.source_fact_ids.dedup.length) (.Lineage "source_fact_ids contains nonexistent fact IDs")
  let id ← query (·.lineage.nextId)
  execute fun t => { t with lineage := t.lineage.insert (newRow record provenance) (newRow_key record provenance) }
  return id

theorem keepsCore_insert (record : NewLineageRecord) (provenance : PromotionProvenance) :
    KeepsCore (insert record provenance) :=
  keepsCore_bind keepsCore_query fun _ => keepsCore_bind keepsCore_require fun _ =>
    keepsCore_bind keepsCore_query fun _ => keepsCore_bind keepsCore_require fun _ =>
      keepsCore_bind keepsCore_query fun _ => keepsCore_bind
        (keepsCore_execute fun _ => ⟨rfl,rfl,rfl,rfl,rfl,rfl⟩) fun _ => keepsCore_pure _

end LineageStore

namespace SummaryStore
variable (self : SqliteBackend)

def newRow (summary : NewSummary) (id : Int) : Summary :=
  ⟨id,summary.content,summary.embedding,summary.level,summary.source_fact_ids,summary.created_at,summary.scope_id⟩

theorem newRow_key (summary : NewSummary) (id : Int) : Row.key (newRow summary id) = id := rfl

def insert (summary : NewSummary) : Sql Int := do
  require (summary.embedding.length = self.embed_dim) (.EmbeddingDimension self.embed_dim summary.embedding.length)
  let id ← query (·.summaries.nextId)
  execute fun t => { t with summaries := t.summaries.insert (newRow summary) (newRow_key summary) }
  return id

def delete_by_level (level : ConsolidationLevel) : Sql Unit :=
  execute fun t => { t with summaries := t.summaries.delete (fun s => s.level == level) }

theorem keepsCore_insert (summary : NewSummary) : KeepsCore (insert self summary) :=
  keepsCore_bind keepsCore_require fun _ => keepsCore_bind keepsCore_query fun _ => keepsCore_bind
    (keepsCore_execute fun _ => ⟨rfl,rfl,rfl,rfl,rfl,rfl⟩) fun _ => keepsCore_pure _

theorem keepsCore_delete_by_level (level : ConsolidationLevel) : KeepsCore (delete_by_level level) :=
  keepsCore_execute fun _ => ⟨rfl,rfl,rfl,rfl,rfl,rfl⟩

end SummaryStore

namespace Config

/-- Upsert of one key. -/
def put (key value : String) : List (String × String) → List (String × String)
  | [] => [(key,value)]
  | (k,v) :: rest => if k = key then (k,value) :: rest else (k,v) :: put key value rest

def get_config (key : String) : Sql (Option String) := query fun t => t.config.lookup key

def set_config (key value : String) : Sql Unit := execute fun t => { t with config := put key value t.config }

theorem lookup_put (key value : String) (config : List (String × String)) : (put key value config).lookup key = some value := by
  induction config with
  | nil => simp [put]
  | cons entry rest ih =>
    obtain ⟨k,v⟩ := entry
    unfold put
    by_cases here : k = key
    · rw [if_pos here,here,List.lookup_cons]
      simp
    · rw [if_neg here,List.lookup_cons,beq_eq_false_iff_ne.mpr (Ne.symm here)]
      exact ih

theorem keepsCore_set_config (key value : String) : KeepsCore (set_config key value) :=
  keepsCore_execute fun _ => ⟨rfl,rfl,rfl,rfl,rfl,rfl⟩

theorem keepsCore_get_config (key : String) : KeepsCore (get_config key) := keepsCore_query

end Config

/-- A manifest row to insert. -/
structure NewArchiveManifest where
  pak_path : String
  created_at : DateTime
  fact_count : Int
  edge_count : Int
  fact_id_min : Int
  fact_id_max : Int
  t_created_min : DateTime
  t_created_max : DateTime
  size_bytes : Int
  blake3_hash : String

namespace ArchiveManifestStore

def newRow (m : NewArchiveManifest) (id : Int) : ArchiveManifestEntry :=
  ⟨id,m.pak_path,m.created_at,m.fact_count,m.edge_count,m.fact_id_min,m.fact_id_max,m.t_created_min,m.t_created_max,
    m.size_bytes,m.blake3_hash⟩

theorem newRow_key (m : NewArchiveManifest) (id : Int) : Row.key (newRow m id) = id := rfl

def insert (m : NewArchiveManifest) : Sql Int := do
  let id ← query (·.archive_manifest.nextId)
  execute fun t => { t with archive_manifest := t.archive_manifest.insert (newRow m) (newRow_key m) }
  return id

theorem keepsCore_insert (m : NewArchiveManifest) : KeepsCore (insert m) :=
  keepsCore_bind keepsCore_query fun _ => keepsCore_bind
    (keepsCore_execute fun _ => ⟨rfl,rfl,rfl,rfl,rfl,rfl⟩) fun _ => keepsCore_pure _

end ArchiveManifestStore
end MemoryEngine
