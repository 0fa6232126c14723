import MemoryEngine.Restore
import MemoryEngine.SchemaDdl
import MemoryEngine.Sessions

/-! Opening a database: a new one gets the schema statement by statement, and an older one
the steps from its version, each in a transaction of its own. -/

namespace MemoryEngine.Schema
open Relational Transaction Sessions

/-- The identity that a v12 `embedding_meta` holds. -/
structure V12Fingerprint where
  model : String
  provider : String
  dim : Nat
  matryoshka_base_dim : Option Nat
  element_type : String

/-- What the engine gets from SQLite, serde and the file system. -/
structure Host where
  datetime_now : String
  json_valid : Cell → Bool
  from_str : String → Except String V12Fingerprint
  /-- The path of a file in a directory. -/
  join : String → String → String
  file_name : String → String
  /-- Remove what is at the path and `VACUUM INTO` it. -/
  backup : String → Database → Except String Unit

/-- The file of a connection and its foreign key enforcement. -/
structure Pragmas where
  path : String
  foreign_keys : Bool

abbrev Connection := Sessions.Connection Database Pragmas
abbrev Script (α : Type) := Tx Database MemoryError α
abbrev Session (α : Type) := Sessions.Session Database Pragmas MemoryError α

def Host.env (host : Host) (pragmas : Pragmas) : Env Cell where
  now := .text host.datetime_now
  valid := host.json_valid
  foreign_keys := pragmas.foreign_keys

/-! ### Scripts -/

section scripts
variable (env : Env Cell)

def execute (s : Statement) : Script Unit := fun db =>
  match db.exec env s with
  | some db' => .ok ((),db')
  | none => .error (.Storage "SQL error")

def execute_batch (statements : List Statement) : Script Unit := statements.forM (execute env)

def get_config (key : String) : Script (Option String) := fun db =>
  if .value ∈ db.catalog.names .config then
    match (db.rows .config).find? fun r => r .key = .text key with
    | none => .ok (none,db)
    | some r =>
      match r .value with
      | .text value => .ok (some value,db)
      | _ => .error (.Storage "invalid column type")
  else .error (.Storage "no such table: config")

def set_config (key value : String) : Script Unit := execute env (.upsert .config .key .value (.text key) (.text value))

def check_foreign_keys : Script Unit := fun db =>
  if db.ForeignKeys then .ok ((),db) else .error (.Migration "foreign key violations detected after table rebuild")

end scripts

/-! ### The steps. Each has its own copy of the definitions of its version. -/

/-- The statements of a step, one list for each batch. -/
def SCOPES_V2 : List Statement :=
  [table .scopes
    [auto_id .id,refer (optional .INTEGER .parent_id) .scopes .id .no_action,required .TEXT .label,defaulting .INTEGER .depth (.integer 0)],
  index .idx_scopes_parent .scopes [.parent_id],
  unique_index .idx_scopes_parent_label .scopes [.parent_id,.label],
  .insert true .scopes [(.id,.integer 1),(.parent_id,.null),(.label,.text "root"),(.depth,.integer 0)]]

def SCOPE_COLUMNS_V2 : List Statement :=
  [.add_column .facts (defaulting .INTEGER .scope_id (.integer 1)),
  .add_column .edges (defaulting .INTEGER .scope_id (.integer 1)),
  .add_column .events (defaulting .INTEGER .scope_id (.integer 1)),
  .add_column .summaries (defaulting .INTEGER .scope_id (.integer 1))]

def SCOPE_INDEXES_V2 : List Statement :=
  [index .idx_facts_scope .facts [.scope_id],
  index .idx_edges_scope .edges [.scope_id],
  index .idx_events_scope .events [.scope_id],
  index .idx_summaries_scope .summaries [.scope_id]]

def migrate_v1_to_v2 (env : Env Cell) : Script Unit := do
  execute_batch env SCOPES_V2
  execute_batch env SCOPE_COLUMNS_V2
  execute_batch env SCOPE_INDEXES_V2

def FTS_V3 : List Statement :=
  [.create_table true .facts_fts (.fts5 .content .facts .id "porter unicode61"),
  .index_select .facts_fts .id .content .facts]

def FTS_TRIGGERS_V3 : List Statement :=
  [.create_trigger true .facts_fts_ai { table := .facts, event := .insert, body := [.enter .facts_fts .id .content] },
  .create_trigger true .facts_fts_ad { table := .facts, event := .delete, body := [.remove .facts_fts .id .content] },
  .create_trigger true .facts_fts_au { table := .facts, event := .update, body := [.remove .facts_fts .id .content,.enter .facts_fts .id .content] }]

def recreate_facts_fts_v3 (env : Env Cell) : Script Unit := do
  execute_batch env FTS_V3
  execute_batch env FTS_TRIGGERS_V3

def DROP_FTS_V3 : List Statement :=
  [.drop_trigger true .facts_fts_ai,.drop_trigger true .facts_fts_ad,.drop_trigger true .facts_fts_au,.drop_table true .facts_fts]

def EVENTS_V3 : List Column :=
  [auto_id .id,required .TEXT .timestamp,required .TEXT .event_type,defaulting .TEXT .payload (.text "\x7b\x7d"),required .TEXT .source,
    optional .TEXT .session_id,refer (defaulting .INTEGER .scope_id (.integer 1)) .scopes .id .no_action]

def FACTS_V3 : List Column :=
  [auto_id .id,required .TEXT .content,required .TEXT .content_hash,required .BLOB .embedding,
    listed (required .TEXT .fact_type) ["episodic","semantic","procedural"],required .TEXT .t_created,optional .TEXT .t_expired,
    optional .TEXT .t_valid,optional .TEXT .t_invalid,refer (optional .INTEGER .source_event_id) .events .id .no_action,
    defaulting .REAL .importance (.real (1 / 2 : ℚ)),defaulting .INTEGER .access_count (.integer 0),required .TEXT .last_accessed,
    json (defaulting .TEXT .metadata (.text "\x7b\x7d")),refer (defaulting .INTEGER .scope_id (.integer 1)) .scopes .id .no_action]

def EDGES_V3 : List Column :=
  [auto_id .id,refer (required .INTEGER .source_fact_id) .facts .id .no_action,refer (required .INTEGER .target_fact_id) .facts .id .no_action,
    required .TEXT .relation_type,defaulting .REAL .weight (.real (1 : ℚ)),required .TEXT .t_created,optional .TEXT .t_expired,
    refer (defaulting .INTEGER .scope_id (.integer 1)) .scopes .id .no_action]

def SUMMARIES_V3 : List Column :=
  [auto_id .id,required .TEXT .content,required .BLOB .embedding,listed (required .TEXT .level) ["local","cluster","global"],
    defaulting .TEXT .source_fact_ids (.text "[]"),required .TEXT .created_at,
    refer (defaulting .INTEGER .scope_id (.integer 1)) .scopes .id .no_action]

def INDEXES_V3 : List Statement :=
  [index_where .idx_events_session .events [.session_id] (.is_not_null .session_id),
  index .idx_events_timestamp .events [.timestamp],
  index .idx_facts_expired .facts [.t_expired],
  index .idx_facts_type .facts [.fact_type],
  index .idx_facts_valid .facts [.t_valid,.t_invalid],
  index .idx_facts_hash .facts [.content_hash],
  index .idx_edges_source .edges [.source_fact_id],
  index .idx_edges_target .edges [.target_fact_id],
  index .idx_edges_expired .edges [.t_expired],
  index .idx_facts_scope .facts [.scope_id],
  index .idx_edges_scope .edges [.scope_id],
  index .idx_events_scope .events [.scope_id],
  index .idx_summaries_scope .summaries [.scope_id]]

/-- Tables are rebuilt with a reference to the scopes, after the tables they refer to. -/
def migrate_v2_to_v3 (env : Env Cell) : Script Unit := do
  execute_batch env DROP_FTS_V3
  execute_batch env (rebuild .events .events_new EVENTS_V3)
  execute_batch env (rebuild .facts .facts_new FACTS_V3)
  execute_batch env (rebuild .edges .edges_new EDGES_V3)
  execute_batch env (rebuild .summaries .summaries_new SUMMARIES_V3)
  recreate_facts_fts_v3 env
  execute_batch env INDEXES_V3

def FACT_COLUMNS_V4 : List Statement :=
  [.add_column .facts (defaulting .INTEGER .is_pinned (.integer 0)),
  .add_column .facts (defaulting .REAL .importance_score (.real (1 / 2 : ℚ)))]

def EVENT_COLUMNS_V4 : List Statement :=
  [.add_column .events (defaulting .TEXT .origin_node_id (.text "local")),
  .add_column .events (defaulting .INTEGER .sequence_id (.integer 0)),
  .add_column .events (optional .TEXT .created_at)]

def INDEXES_V4 : List Statement :=
  [index_where .idx_facts_pinned .facts [.is_pinned] (.equals .is_pinned (.integer 1)),
  index .idx_facts_importance_score .facts [.importance_score],
  index_where .idx_facts_t_valid_due .facts [.t_valid] (.and (.is_not_null .t_valid) (.is_null .t_expired)),
  index .idx_events_origin_seq .events [.origin_node_id,.sequence_id]]

def migrate_v3_to_v4 (env : Env Cell) : Script Unit := do
  execute_batch env FACT_COLUMNS_V4
  execute env (.update_column .facts .importance_score .importance)
  execute_batch env EVENT_COLUMNS_V4
  execute_batch env INDEXES_V4

def REVISION_V5 : List Statement := [.add_column .events (defaulting .INTEGER .event_revision (.integer 1))]

def migrate_v4_to_v5 (env : Env Cell) : Script Unit := execute_batch env REVISION_V5

def SURFACED_V6 : List Statement := [.add_column .facts (optional .TEXT .surfaced_at)]

def migrate_v5_to_v6 (env : Env Cell) : Script Unit := execute_batch env SURFACED_V6

def MANIFEST_V7 : List Statement :=
  [table .archive_manifest
    [auto_id .id,required .TEXT .pak_path,required .TEXT .created_at,required .INTEGER .fact_count,required .INTEGER .edge_count,
      required .INTEGER .fact_id_min,required .INTEGER .fact_id_max,required .TEXT .t_created_min,required .TEXT .t_created_max,
      required .INTEGER .size_bytes,required .TEXT .blake3_hash],
  unique_index .idx_archive_manifest_path .archive_manifest [.pak_path]]

def migrate_v6_to_v7 (env : Env Cell) : Script Unit := execute_batch env MANIFEST_V7

def LINEAGE_V8 : List Statement :=
  [table .lineage
    [auto_id .lineage_id,refer (required .INTEGER .wisdom_fact_id) .facts .id .cascade,json (required .TEXT .source_fact_ids),
      json (required .TEXT .provenance)],
  unique_index .idx_lineage_wisdom_fact_id .lineage [.wisdom_fact_id]]

def migrate_v7_to_v8 (env : Env Cell) : Script Unit := execute_batch env LINEAGE_V8

def ACTIVITIES_V9 : List Statement :=
  [table .activities
    [auto_id .id,required .TEXT .session_id,required .TEXT .tool_name,required .TEXT .args_hash,
      json (defaulting .TEXT .args (.text "\x7b\x7d")),optional .TEXT .result_summary,defaulting .TEXT .outcome_class (.text "success"),
      listed (defaulting .TEXT .status (.text "recorded")) ["recorded","deduplicated","ignored","promoted"],
      defaulting .INTEGER .occurrence_count (.integer 1),required .TEXT .first_seen,required .TEXT .last_seen,
      refer (defaulting .INTEGER .scope_id (.integer 1)) .scopes .id .no_action,
      refer (optional .INTEGER .promoted_fact_id) .facts .id .no_action],
  index .idx_activities_session .activities [.session_id],
  index .idx_activities_dedup .activities [.session_id,.tool_name,.args_hash,.outcome_class,.scope_id],
  .create_index true .idx_activities_scope_recent { table := .activities, columns := [(.scope_id,.asc),(.last_seen,.desc)] },
  index .idx_activities_status .activities [.status],
  table .session_checkpoints
    [{ name := .session_id, type := .TEXT, primary_key := true },optional .TEXT .scope_path,optional .TEXT .summary,
      refer (optional .INTEGER .last_activity_id) .activities .id .set_null,required .TEXT .checkpoint_at,
      json (defaulting .TEXT .metadata (.text "\x7b\x7d"))],
  index .idx_checkpoints_scope .session_checkpoints [.scope_path]]

def migrate_v8_to_v9 (env : Env Cell) : Script Unit := execute_batch env ACTIVITIES_V9

/-- Some v9 databases have the index without its last column. -/
def DEDUP_V10 : List Statement :=
  [.drop_index true .idx_activities_dedup,
  .create_index false .idx_activities_dedup
    { table := .activities, columns := [(.session_id,.asc),(.tool_name,.asc),(.args_hash,.asc),(.outcome_class,.asc),(.scope_id,.asc)] }]

def migrate_v9_to_v10 (env : Env Cell) : Script Unit := execute_batch env DEDUP_V10

def CREATED_V11 : List Statement := [index .idx_facts_created .facts [.t_created]]

def migrate_v10_to_v11 (env : Env Cell) : Script Unit := execute_batch env CREATED_V11

def EMBED_DIM_V12 : List Statement := [.delete_where .config .key (.text "embed_dim")]

def migrate_v11_to_v12 (env : Env Cell) : Script Unit := execute_batch env EMBED_DIM_V12

def SPACES_V13 : List Statement :=
  [table .embedding_spaces
    [{ name := .name, type := .TEXT, primary_key := true },required .TEXT .model,required .TEXT .provider,required .INTEGER .dim,
      optional .INTEGER .matryoshka_base_dim,defaulting .TEXT .element_type (.text "float32"),
      listed (defaulting .TEXT .status (.text "active")) ["active","populating","deprecated"],
      { required .TEXT .created_at with initial := some .now }],
  .create_index true .idx_embedding_spaces_one_active
    { table := .embedding_spaces, columns := [(.status,.asc)], unique := true, condition := some (.equals .status (.text "active")) }]

/-- `i64::try_from` -/
def to_i64 (what : String) (n : Nat) : Except MemoryError Cell :=
  if n < 2 ^ 63 then .ok (.integer n) else .error (.Migration s!"embedding_meta.{what} exceeds i64")

/-- The values of the space that an identity becomes. -/
def V12Fingerprint.space (fp : V12Fingerprint) : Except MemoryError (List (ColumnName × Cell)) := do
  let dim ← to_i64 "dim" fp.dim
  let base ← match fp.matryoshka_base_dim with
    | none => pure Cell.null
    | some d => to_i64 "matryoshka_base_dim" d
  return [(.name,.text "default"),(.model,.text fp.model),(.provider,.text fp.provider),(.dim,dim),(.matryoshka_base_dim,base),
    (.element_type,.text fp.element_type),(.status,.text "active")]

def migrate_v12_to_v13 (host : Host) (env : Env Cell) : Script Unit := do
  execute_batch env SPACES_V13
  match ← get_config "embedding_meta" with
  | none => return ()
  | some raw =>
    let fp ← liftM ((host.from_str raw).mapError fun e => MemoryError.Migration s!"corrupt embedding_meta during v12->v13: {e}")
    let values ← liftM fp.space
    execute env (.insert false .embedding_spaces values)
    execute_batch env [.delete_where .config .key (.text "embedding_meta")]

def VECTORS_V14 : List Statement :=
  [.create_table true .fact_vectors (.table
    [refer (required .INTEGER .fact_id) .facts .id .cascade,refer (required .TEXT .space_id) .embedding_spaces .name .cascade,
      required .BLOB .embedding] [.fact_id,.space_id] true),
  index .idx_fact_vectors_space .fact_vectors [.space_id]]

def migrate_v13_to_v14 (env : Env Cell) : Script Unit := execute_batch env VECTORS_V14

/-! ### Opening -/

section opening
variable (host : Host)

/-- A step, and whether foreign keys are off around it. -/
structure Migration where
  run : Env Cell → Script Unit
  disable_fk : Bool

def MIGRATIONS : List Migration :=
  [⟨migrate_v1_to_v2,false⟩,⟨migrate_v2_to_v3,true⟩,⟨migrate_v3_to_v4,false⟩,⟨migrate_v4_to_v5,false⟩,⟨migrate_v5_to_v6,false⟩,
    ⟨migrate_v6_to_v7,false⟩,⟨migrate_v7_to_v8,false⟩,⟨migrate_v8_to_v9,false⟩,⟨migrate_v9_to_v10,false⟩,⟨migrate_v10_to_v11,false⟩,
    ⟨migrate_v11_to_v12,false⟩,⟨migrate_v12_to_v13 host,false⟩,⟨migrate_v13_to_v14,false⟩]

/-- The transaction of a step. -/
def Migration.transaction (m : Migration) (target : Nat) (env : Env Cell) : Script Unit := do
  m.run env
  if m.disable_fk then check_foreign_keys
  set_config env "schema_version" (toString target)

/-- An unsigned number below a bound, as `parse` reads it. -/
def parse_unsigned (bound : Nat) (s : String) : Option Nat :=
  let digits : List Char := match s.toList with
    | '+' :: rest => rest
    | all => all
  let n := digits.foldl (fun n c => 10 * n + (c.toNat - '0'.toNat)) 0
  if digits ≠ [] ∧ digits.all Char.isDigit ∧ n < bound then some n else none

section session
variable (fault : Nat → Option MemoryError)

def set_foreign_keys (enabled : Bool) : Session Unit := configure fun p => { p with foreign_keys := enabled }

/-- A statement outside of a transaction is one of its own. -/
def autocommit (x : Env Cell → Script Unit) : Session Unit := transact fault fun p => x (host.env p)

/-- Enforcement comes back on even if the step fails. -/
def migrate_step (m : Migration) (target : Nat) : Session Unit := do
  if m.disable_fk then set_foreign_keys false
  let result ← attempt (transact fault fun p => m.transaction target (host.env p))
  if m.disable_fk then set_foreign_keys true
  liftM (n := Session) result

/-- The steps from the version on. -/
def run_migrations (version : Nat) : List Migration → Nat → Session Unit
  | [],_ => pure ()
  | m :: rest,target => do
    if version < target then migrate_step host fault m target
    run_migrations version rest (target + 1)

def backup_before_migration (backup_dir : String) (current_version : Nat) : Session Unit := ExceptT.mk fun c =>
  if c.settings.path = "" ∨ c.settings.path = ":memory:" then (.error (.Migration "cannot backup in-memory database"),c)
  else
    let backup_path := host.join backup_dir (host.file_name c.settings.path ++ ".v" ++ toString current_version ++ ".bak")
    if '\x00' ∈ backup_path.toList then (.error (.Migration "backup path contains null byte"),c)
    else ((host.backup backup_path c.state).mapError MemoryError.Migration,c)

/-- The version of the schema. A database that does not say is of the first. -/
def stored_version : Script Nat := do
  let version_str := (← get_config "schema_version").getD "1"
  match parse_unsigned (2 ^ 32) version_str with
  | some version => return version
  | none => throw (.Migration s!"invalid schema_version: {version_str}")

/-- The epoch gate. -/
def supported_epoch : Script (Option String) := do
  let epoch_str ← get_config "storage_epoch"
  let epoch_raw := epoch_str.getD "1"
  match parse_unsigned (2 ^ 16) epoch_raw with
  | some db_epoch => if db_epoch > STORAGE_EPOCH then throw (.UnsupportedEpoch db_epoch STORAGE_EPOCH) else return epoch_str
  | none => throw (.Migration s!"invalid storage_epoch: {epoch_raw}")

def newer_version (version : Nat) : MemoryError :=
  .Migration s!"schema_version {version} is newer than supported {CURRENT_SCHEMA_VERSION}; consider upgrading the memory-engine crate"

/-- Databases from before the epochs get theirs. -/
def stamp_epoch (epoch_str : Option String) : Session Unit :=
  if epoch_str.isNone then autocommit host fault fun env => set_config env "storage_epoch" (toString STORAGE_EPOCH) else pure ()

def migrate (backup_dir : Option String) : Session Unit := do
  let version ← read stored_version
  let epoch_str ← read supported_epoch
  if version > CURRENT_SCHEMA_VERSION then
    throw (newer_version version)
  else if version = CURRENT_SCHEMA_VERSION then stamp_epoch host fault epoch_str
  else
    backup_dir.forM fun dir => backup_before_migration host dir version
    run_migrations host fault version (MIGRATIONS host) 2
    stamp_epoch host fault epoch_str

/-- `execute_batch` on a connection, which commits each statement. -/
def autocommit_batch (statements : List Statement) : Session Unit := statements.forM fun s => autocommit host fault fun env => execute env s

def init_schema : Session Unit := ExceptT.mk fun c =>
  if (c.state.catalog.tables .config).isSome then (.ok (),c)
  else ExceptT.run (do
    autocommit_batch host fault TABLES_DDL
    autocommit_batch host fault SCOPES_DDL
    autocommit_batch host fault FTS5_DDL
    autocommit_batch host fault TRIGGERS_DDL
    autocommit_batch host fault INDEXES_DDL
    autocommit host fault fun env => set_config env "schema_version" (toString CURRENT_SCHEMA_VERSION)
    autocommit host fault fun env => set_config env "storage_epoch" (toString STORAGE_EPOCH) : Session Unit) c

/-- The part of opening a pool that writes. -/
def open_pool (backup_dir : Option String) : Session Unit := do
  init_schema host fault
  migrate host fault backup_dir

/-- A connection to the file, with `set_pragmas`. -/
def open_connection (path : String) (db : Database) : Connection where
  state := db
  settings := ⟨path,true⟩

end session
end opening
end MemoryEngine.Schema
