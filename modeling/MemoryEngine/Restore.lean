import MemoryEngine.Dump
import MemoryEngine.Fingerprint

/-! Restoring a dump. The snapshot is checked as a whole, then one transaction fills
a store that holds no row yet; every row keeps the id it has in the dump. -/

namespace MemoryEngine
open Time KeyedTable Transaction

def CURRENT_SCHEMA_VERSION : Nat := 14
def STORAGE_EPOCH : Nat := 1

/-- Keys of the configuration that opening a store sets. -/
def MANAGED_CONFIG_KEYS : List String := ["schema_version","storage_epoch","embedding_meta"]

namespace Restore

def require_dim (expected : Nat) (embedding : Embedding) : Except MemoryError Unit :=
  if embedding.length ≠ expected then .error (.EmbeddingDimension expected embedding.length) else .ok ()

/-- A vector beside the facts has the dimension of its own space. -/
def validateVector (spaces : List EmbeddingSpaceSnapshot) (v : FactVector) : Except MemoryError Unit :=
  match spaces.find? fun s => s.name == v.space_id with
  | some s => require_dim s.fingerprint.dim v.embedding
  | none => .error (.Internal s!"snapshot fact_vectors row references unknown embedding space '{v.space_id}'")

def isRoot (s : ScopeNode) : Bool := s.id == 1 && s.parent_id.isNone && s.label == "root" && s.depth == 0

def validate_snapshot (snapshot : EngineSnapshot) : Except MemoryError Unit :=
  if snapshot.schema_version > CURRENT_SCHEMA_VERSION then
    .error (.Migration s!"snapshot schema_version {snapshot.schema_version} is newer than supported {CURRENT_SCHEMA_VERSION}")
  else if snapshot.storage_epoch > STORAGE_EPOCH then .error (.UnsupportedEpoch snapshot.storage_epoch STORAGE_EPOCH)
  else if snapshot.embed_dim = 0 then .error (.Internal "snapshot embed_dim is 0")
  else do
    snapshot.facts.foldlM (fun _ f => require_dim snapshot.embed_dim f.embedding) ()
    snapshot.summaries.foldlM (fun _ s => require_dim snapshot.embed_dim s.embedding) ()
    snapshot.fact_vectors.foldlM (fun _ v => validateVector snapshot.embedding_spaces v) ()
    if ¬ snapshot.scopes.any isRoot = true ∧ snapshot.scopes ≠ [] then
      .error (.Internal "snapshot scopes missing required root node (id=1, parent_id=None, label='root', depth=0)")
    else .ok ()

/-- No table holds a row but for the root scope. -/
def assert_empty_db : Sql Unit := do
  let total ← query fun t => t.events.rows.length + t.facts.rows.length + t.edges.rows.length + t.summaries.rows.length +
    t.scopes.rows.countP (fun s => decide (s.id > 1)) + t.lineage.rows.length + t.fact_vectors.length
  require (¬ total > 0) (.Conflict .TargetNotEmpty)

/-- A table of the database, and how to change it. -/
structure Section (ρ : Type) [Row ρ] where
  name : String
  table : Tables → Table ρ
  change : (Table ρ → Table ρ) → Tables → Tables

def scopes : Section ScopeNode := ⟨"scopes",Tables.scopes,fun f t => { t with scopes := f t.scopes }⟩
def events : Section Event := ⟨"events",Tables.events,fun f t => { t with events := f t.events }⟩
def facts : Section Fact := ⟨"facts",Tables.facts,fun f t => { t with facts := f t.facts }⟩
def edges : Section Edge := ⟨"edges",Tables.edges,fun f t => { t with edges := f t.edges }⟩
def summaries : Section Summary := ⟨"summaries",Tables.summaries,fun f t => { t with summaries := f t.summaries }⟩
def lineage : Section LineageRow := ⟨"lineage",Tables.lineage,fun f t => { t with lineage := f t.lineage }⟩

section rows
variable {ρ : Type} [Row ρ]

/-- Insert a row under an id of its own. -/
def insertRow (part : Section ρ) (row : ρ) : Sql Unit := do
  let used ← query fun t => decide ((part.table t).Has (key row))
  require (used = false) (.Storage s!"UNIQUE constraint failed: {part.name}.id")
  execute (part.change fun table => table.insertKeyed row)

def insertRows (part : Section ρ) (rows : List ρ) : Sql Unit := rows.foldlM (fun _ row => insertRow part row) ()

/-- The largest id of a section, zero for an empty one. -/
def max_id (rows : List ρ) : Int := ((rows.map key).max?).getD 0

def reset_autoincrement (part : Section ρ) (rows : List ρ) : Sql Unit := execute (part.change fun table => table.reseat (max_id rows))

end rows

/-- Parents come before their children. -/
def byDepth (a b : ScopeNode) : Bool := a.depth < b.depth || (a.depth == b.depth && a.id ≤ b.id)

/-- The scopes of the dump replace the root scope. A dump without scopes keeps it. -/
def restore_scopes (snapshot : EngineSnapshot) : Sql Unit :=
  guarded (snapshot.scopes ≠ []) do
    execute fun t => { t with scopes := t.scopes.delete fun _ => true }
    insertRows scopes (snapshot.scopes.mergeSort byDepth)

def restore_config (snapshot : EngineSnapshot) : Sql Unit :=
  snapshot.config.foldlM (fun _ entry => guarded (entry.1 ∉ MANAGED_CONFIG_KEYS) (Config.set_config entry.1 entry.2)) ()

variable (from_str : String → Except String EmbeddingFingerprint)

/-- The registry. An old dump has none, but perhaps the identity in the configuration. -/
def restore_embedding_spaces (snapshot : EngineSnapshot) : Sql Unit :=
  match snapshot.embedding_spaces with
  | [] =>
    match snapshot.config.lookup "embedding_meta" with
    | some raw => do
      let fp ← (from_str raw).mapError fun e => MemoryError.Migration s!"corrupt legacy embedding_meta in snapshot: {e}"
      EmbeddingSpaces.upsert_active_fingerprint fp
    | none => return ()
  | spaces => spaces.foldlM (fun _ s => do
      let status ← SpaceStatus.from_sql s.status
      EmbeddingSpaces.insert_active ⟨s.name,s.fingerprint,status⟩) ()

def restore_fact_vectors (snapshot : EngineSnapshot) : Sql Unit :=
  snapshot.fact_vectors.foldlM (fun _ v => execute fun t => { t with fact_vectors := t.fact_vectors ++ [v] }) ()

end Restore

open Restore

/-- One transaction behind the two checks. -/
def restore_snapshot_into (from_str : String → Except String EmbeddingFingerprint) (snapshot : EngineSnapshot) : Sql Unit := do
  validate_snapshot snapshot
  assert_empty_db
  restore_scopes snapshot
  insertRows events snapshot.events
  insertRows facts snapshot.facts
  insertRows edges snapshot.edges
  insertRows summaries snapshot.summaries
  snapshot.lineage.foldlM (fun _ entry => LineageStore.insert_raw entry) ()
  restore_config snapshot
  restore_embedding_spaces from_str snapshot
  restore_fact_vectors snapshot
  reset_autoincrement scopes snapshot.scopes
  reset_autoincrement events snapshot.events
  reset_autoincrement facts snapshot.facts
  reset_autoincrement edges snapshot.edges
  reset_autoincrement summaries snapshot.summaries
  reset_autoincrement lineage snapshot.lineage

namespace Restore

theorem commits_insertRow {ρ : Type} [Row ρ] {part : Section ρ} {row : ρ} {s t : Db} {u : Unit} : Commits (insertRow part row) s u t ↔
    ¬ (part.table s.toTables).Has (key row) ∧ t.toTables = part.change (fun table => table.insertKeyed row) s.toTables := by
  simp only [insertRow,commits_bind,commits_query,commits_require,commits_execute]
  constructor
  · rintro ⟨used,_,⟨rfl,rfl⟩,_,_,⟨unused,rfl⟩,written⟩
    exact ⟨of_decide_eq_false unused,written⟩
  · rintro ⟨unused,written⟩
    exact ⟨_,s,⟨rfl,rfl⟩,(),s,⟨decide_eq_false unused,rfl⟩,written⟩

section leaves
variable {ρ γ : Type} [Row ρ] {part : Tables → γ}

theorem leaves_insertRows {into : Section ρ} (apart : ∀ f t, part (into.change f t) = part t) (rows : List ρ) :
    Leaves part (insertRows into rows) :=
  leaves_foldlM (fun _ _ => leaves_bind leaves_query fun _ => leaves_bind leaves_require fun _ => leaves_execute fun _ => apart _ _) rows ()

end leaves

/-- The rows of a dump, without the counters. -/
def fill (from_str : String → Except String EmbeddingFingerprint) (snapshot : EngineSnapshot) : Sql Unit := do
  restore_scopes snapshot
  insertRows events snapshot.events
  insertRows facts snapshot.facts
  insertRows edges snapshot.edges
  insertRows summaries snapshot.summaries
  snapshot.lineage.foldlM (fun _ entry => LineageStore.insert_raw entry) ()
  restore_config snapshot
  restore_embedding_spaces from_str snapshot
  restore_fact_vectors snapshot

/-- The counters of a dump. -/
def reseated (snapshot : EngineSnapshot) (t : Tables) : Tables :=
  { t with
    scopes := t.scopes.reseat (max_id snapshot.scopes)
    events := t.events.reseat (max_id snapshot.events)
    facts := t.facts.reseat (max_id snapshot.facts)
    edges := t.edges.reseat (max_id snapshot.edges)
    summaries := t.summaries.reseat (max_id snapshot.summaries)
    lineage := t.lineage.reseat (max_id snapshot.lineage) }

/-- A store without rows. -/
structure Vacant (t : Tables) : Prop where
  events : t.events.rows = []
  facts : t.facts.rows = []
  edges : t.edges.rows = []

/-- A restore fills a store without rows and resets its counters. -/
theorem commits_restore {from_str : String → Except String EmbeddingFingerprint} {snapshot : EngineSnapshot} {s t : Db} {u : Unit}
    (committed : Commits (restore_snapshot_into from_str snapshot) s u t) :
    Vacant s.toTables ∧ ∃ m, Commits (fill from_str snapshot) s () m ∧ t.toTables = reseated snapshot m.toTables := by
  obtain ⟨_,_,validated,checking⟩ := commits_bind.mp committed
  obtain ⟨_,rfl⟩ := commits_lift.mp validated
  obtain ⟨_,m,checked,filling⟩ := commits_bind.mp checking
  obtain ⟨total,_,counted,required⟩ := commits_bind.mp checked
  obtain ⟨rfl,rfl⟩ := commits_query.mp counted
  obtain ⟨none_,rfl⟩ := commits_require.mp required
  refine ⟨⟨List.eq_nil_of_length_eq_zero (by omega),List.eq_nil_of_length_eq_zero (by omega),List.eq_nil_of_length_eq_zero (by omega)⟩,?_⟩
  obtain ⟨_,m₁,first,filling⟩ := commits_bind.mp filling
  obtain ⟨_,m₂,second,filling⟩ := commits_bind.mp filling
  obtain ⟨_,m₃,third,filling⟩ := commits_bind.mp filling
  obtain ⟨_,m₄,fourth,filling⟩ := commits_bind.mp filling
  obtain ⟨_,m₅,fifth,filling⟩ := commits_bind.mp filling
  obtain ⟨_,m₆,sixth,filling⟩ := commits_bind.mp filling
  obtain ⟨_,m₇,seventh,filling⟩ := commits_bind.mp filling
  obtain ⟨_,m₈,eighth,filling⟩ := commits_bind.mp filling
  obtain ⟨_,m₉,ninth,resetting⟩ := commits_bind.mp filling
  refine ⟨m₉,commits_bind.mpr ⟨_,_,first,commits_bind.mpr ⟨_,_,second,commits_bind.mpr ⟨_,_,third,commits_bind.mpr ⟨_,_,fourth,
    commits_bind.mpr ⟨_,_,fifth,commits_bind.mpr ⟨_,_,sixth,commits_bind.mpr ⟨_,_,seventh,commits_bind.mpr ⟨_,_,eighth,ninth⟩⟩⟩⟩⟩⟩⟩⟩,?_⟩
  obtain ⟨_,r₁,one,resetting⟩ := commits_bind.mp resetting
  obtain ⟨_,r₂,two,resetting⟩ := commits_bind.mp resetting
  obtain ⟨_,r₃,three,resetting⟩ := commits_bind.mp resetting
  obtain ⟨_,r₄,four,resetting⟩ := commits_bind.mp resetting
  obtain ⟨_,r₅,five,six⟩ := commits_bind.mp resetting
  rw [commits_execute.mp six,commits_execute.mp five,commits_execute.mp four,commits_execute.mp three,commits_execute.mp two,commits_execute.mp one]
  rfl

section given
variable {ρ : Type} [Row ρ]

/-- Every row of a table that is new comes from the dump. -/
abbrev From (part : Section ρ) (given : List ρ) (s t : Db) : Prop :=
  ∀ row ∈ (part.table t.toTables).rows, row ∈ (part.table s.toTables).rows ∨ row ∈ given

/-- A section whose table is its own, and holds no summary, lineage, configuration, space or
    vector. -/
structure Section.Apart (part : Section ρ) : Prop where
  own : ∀ f t, part.table (part.change f t) = f (part.table t)
  summaries : ∀ f t, part.table (summaries.change f t) = part.table t
  lineage : ∀ t lineage, part.table { t with lineage := lineage } = part.table t
  config : ∀ t config, part.table { t with config := config } = part.table t
  spaces : ∀ t spaces, part.table { t with embedding_spaces := spaces } = part.table t
  vectors : ∀ t vectors, part.table { t with fact_vectors := vectors } = part.table t

theorem apart_facts : facts.Apart := ⟨fun _ _ => rfl,fun _ _ => rfl,fun _ _ => rfl,fun _ _ => rfl,fun _ _ => rfl,fun _ _ => rfl⟩
variable {part : Section ρ} {given : List ρ}

theorem From.trans {s m t : Db} (first : From part given s m) (second : From part given m t) : From part given s t := by
  intro row member
  rcases second row member with before | listed
  · exact first row before
  · exact .inr listed

theorem from_of_leaves {α : Type} {x : Sql α} (leaves : Leaves part.table x) : Keeps (From part given) x := by
  intro s a t committed row member
  rw [leaves s a t committed] at member
  exact .inl member

theorem from_bind {α β : Type} {x : Sql α} {f : α → Sql β} (first : Keeps (From part given) x) (rest : ∀ a, Keeps (From part given) (f a)) :
    Keeps (From part given) (x >>= f) := Keeps.bind (fun _ _ _ left right => left.trans right) first rest

theorem from_insertRows (apart : part.Apart) {rows : List ρ} (listed : rows ⊆ given) : Keeps (From part given) (insertRows part rows) := by
  refine Keeps.foldlM_mem (fun _ _ held => .inl held) (fun _ _ _ left right => left.trans right) ?_ ()
  intro _ new among s u t committed row member
  obtain ⟨unused,written⟩ := commits_insertRow.mp committed
  rw [written,apart.own] at member
  rcases (Table.mem_insertKeyed unused).mp member with old | rfl
  · exact .inl old
  · exact .inr (listed among)

end given

section fill
variable {ρ : Type} [Row ρ] {part : Section ρ} {given : List ρ} {from_str : String → Except String EmbeddingFingerprint} {snapshot : EngineSnapshot}

theorem leaves_restore_embedding_spaces (apart : part.Apart) : Leaves part.table (restore_embedding_spaces from_str snapshot) := by
  unfold restore_embedding_spaces
  split
  · split
    · exact leaves_bind (leaves_lift _) fun fp => EmbeddingSpaces.leaves_upsert_active_fingerprint apart.spaces fp
    · exact leaves_pure _
  · refine leaves_foldlM (fun _ s => leaves_bind (leaves_lift _) fun status => ?_) _ ()
    exact EmbeddingSpaces.leaves_insertRow apart.spaces _

theorem leaves_restore_config (apart : part.Apart) : Leaves part.table (restore_config snapshot) := by
  refine leaves_foldlM (fun _ entry => ?_) snapshot.config ()
  exact leaves_guarded (leaves_execute fun _ => apart.config _ _)

theorem leaves_restore_lineage (apart : part.Apart) (rows : List LineageRow) :
    Leaves part.table (rows.foldlM (fun _ entry => LineageStore.insert_raw entry) ()) := by
  refine leaves_foldlM (fun _ entry => ?_) rows ()
  exact leaves_bind leaves_query fun _ => leaves_bind leaves_require fun _ => leaves_execute fun _ => apart.lineage _ _

theorem leaves_restore_fact_vectors (apart : part.Apart) : Leaves part.table (restore_fact_vectors snapshot) := by
  refine leaves_foldlM (fun _ v => ?_) snapshot.fact_vectors ()
  exact leaves_execute fun _ => apart.vectors _ _

/-- What goes into a table goes in with the first four sections. -/
theorem from_fill (apart : part.Apart) (happened : Keeps (From part given) (insertRows events snapshot.events))
    (known : Keeps (From part given) (insertRows facts snapshot.facts)) (linked : Keeps (From part given) (insertRows edges snapshot.edges)) {s t : Db}
    {u : Unit} (filled : Commits (fill from_str snapshot) s u t) : ∃ m, Commits (restore_scopes snapshot) s () m ∧ From part given m t := by
  obtain ⟨_,m,located,rest⟩ := commits_bind.mp filled
  refine ⟨m,located,(?_ : Keeps (From part given) _) m u t rest⟩
  refine from_bind happened fun _ => from_bind known fun _ => from_bind linked fun _ => ?_
  refine from_bind (from_of_leaves (leaves_insertRows apart.summaries _)) fun _ => ?_
  refine from_bind (from_of_leaves (leaves_restore_lineage apart _)) fun _ => from_bind (from_of_leaves (leaves_restore_config apart)) fun _ => ?_
  exact from_bind (from_of_leaves (leaves_restore_embedding_spaces apart)) fun _ => from_of_leaves (leaves_restore_fact_vectors apart)

/-- The scopes of a dump go into the scopes only. -/
theorem leaves_restore_scopes (apart : ∀ f t, part.table (scopes.change f t) = part.table t) : Leaves part.table (restore_scopes snapshot) :=
  leaves_guarded (leaves_bind (leaves_execute fun t => apart (fun table => table.delete fun _ => true) t) fun _ => leaves_insertRows apart _)

end fill

variable {from_str : String → Except String EmbeddingFingerprint} {snapshot : EngineSnapshot} {s t : Db} {u : Unit}

/-- The rows that a store without rows is filled with are those of the dump. -/
theorem filled_rows {ρ : Type} [Row ρ] {part : Section ρ} {given : List ρ} (apart : part.Apart)
    (scoping : ∀ f t, part.table (scopes.change f t) = part.table t) (happened : Keeps (From part given) (insertRows events snapshot.events))
    (known : Keeps (From part given) (insertRows facts snapshot.facts)) (linked : Keeps (From part given) (insertRows edges snapshot.edges))
    (empty : (part.table s.toTables).rows = []) (filled : Commits (fill from_str snapshot) s u t) : ∀ row ∈ (part.table t.toTables).rows, row ∈ given := by
  obtain ⟨m,located,placed⟩ := from_fill apart happened known linked filled
  intro row member
  refine (placed row member).resolve_left fun before => ?_
  rw [leaves_restore_scopes scoping _ _ _ located,empty] at before
  cases before

theorem filled_facts (vacant : Vacant s.toTables) (filled : Commits (fill from_str snapshot) s u t) : ∀ f ∈ t.facts.rows, f ∈ snapshot.facts :=
  filled_rows apart_facts (fun _ _ => rfl) (from_of_leaves (leaves_insertRows (fun _ _ => rfl) _)) (from_insertRows apart_facts (List.Subset.refl _))
    (from_of_leaves (leaves_insertRows (fun _ _ => rfl) _)) vacant.facts filled

/-- The facts of a restored store are facts of the dump. -/
theorem restored_facts (committed : Commits (restore_snapshot_into from_str snapshot) s u t) : ∀ f ∈ t.facts.rows, f ∈ snapshot.facts := by
  obtain ⟨vacant,m,filled,contents⟩ := commits_restore committed
  rw [contents]
  exact filled_facts vacant filled

end Restore
end MemoryEngine
