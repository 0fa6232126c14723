import MemoryEngine.Relational
import MemoryEngine.Types
import Mathlib.Order.WithBotTop

/-! The schema that a new database gets. -/

namespace MemoryEngine.Schema
open Relational

/-- A stored value. -/
inductive Cell where
  | null
  | integer (i : Int)
  | real (x : SqlReal)
  | text (s : String)
  | blob (bytes : List UInt8)
deriving DecidableEq

instance : Nullable Cell := ⟨.null⟩

inductive TableName where
  | events | facts | edges | summaries | config | archive_manifest | lineage | activities | session_checkpoints
  | embedding_spaces | fact_vectors | scopes | facts_fts
  /-- The tables that a rebuild fills and renames. -/
  | events_new | facts_new | edges_new | summaries_new
deriving DecidableEq

inductive ColumnName where
  | id | timestamp | event_type | payload | source | session_id | scope_id | origin_node_id | sequence_id | created_at | event_revision
  | content | content_hash | embedding | fact_type | t_created | t_expired | t_valid | t_invalid | source_event_id | importance
  | access_count | last_accessed | metadata | is_pinned | importance_score | surfaced_at
  | source_fact_id | target_fact_id | relation_type | weight | level | source_fact_ids | key | value
  | pak_path | fact_count | edge_count | fact_id_min | fact_id_max | t_created_min | t_created_max | size_bytes | blake3_hash
  | lineage_id | wisdom_fact_id | provenance
  | tool_name | args_hash | args | result_summary | outcome_class | status | occurrence_count | first_seen | last_seen | promoted_fact_id
  | scope_path | summary | last_activity_id | checkpoint_at
  | name | model | provider | dim | matryoshka_base_dim | element_type | fact_id | space_id
  | parent_id | label | depth
deriving DecidableEq

inductive IndexName where
  | idx_archive_manifest_path | idx_lineage_wisdom_fact_id
  | idx_activities_session | idx_activities_dedup | idx_activities_scope_recent | idx_activities_status | idx_checkpoints_scope
  | idx_embedding_spaces_one_active | idx_fact_vectors_space | idx_scopes_parent | idx_scopes_parent_label
  | idx_events_session | idx_events_timestamp | idx_facts_expired | idx_facts_type | idx_facts_valid | idx_facts_hash
  | idx_edges_source | idx_edges_target | idx_edges_expired | idx_facts_scope | idx_edges_scope | idx_events_scope | idx_summaries_scope
  | idx_facts_pinned | idx_facts_importance_score | idx_facts_t_valid_due | idx_facts_created | idx_events_origin_seq
deriving DecidableEq

inductive TriggerName where
  | facts_fts_ai | facts_fts_ad | facts_fts_au
deriving DecidableEq

def TableName.all : List TableName :=
  [.events,.facts,.edges,.summaries,.config,.archive_manifest,.lineage,.activities,.session_checkpoints,.embedding_spaces,
    .fact_vectors,.scopes,.facts_fts,.events_new,.facts_new,.edges_new,.summaries_new]

def IndexName.all : List IndexName :=
  [.idx_archive_manifest_path,.idx_lineage_wisdom_fact_id,.idx_activities_session,.idx_activities_dedup,
    .idx_activities_scope_recent,.idx_activities_status,.idx_checkpoints_scope,.idx_embedding_spaces_one_active,
    .idx_fact_vectors_space,.idx_scopes_parent,.idx_scopes_parent_label,.idx_events_session,.idx_events_timestamp,
    .idx_facts_expired,.idx_facts_type,.idx_facts_valid,.idx_facts_hash,.idx_edges_source,.idx_edges_target,.idx_edges_expired,
    .idx_facts_scope,.idx_edges_scope,.idx_events_scope,.idx_summaries_scope,.idx_facts_pinned,.idx_facts_importance_score,
    .idx_facts_t_valid_due,.idx_facts_created,.idx_events_origin_seq]

def TriggerName.all : List TriggerName := [.facts_fts_ai,.facts_fts_ad,.facts_fts_au]

instance : FinEnum TableName := FinEnum.ofNodupList TableName.all (by intro t; cases t <;> decide) (by decide)

instance : FinEnum IndexName := FinEnum.ofNodupList IndexName.all (by intro i; cases i <;> decide) (by decide)

instance : FinEnum TriggerName := FinEnum.ofNodupList TriggerName.all (by intro g; cases g <;> decide) (by decide)

abbrev Column := Relational.Column TableName ColumnName Cell
abbrev TableDef := Relational.TableDef TableName ColumnName Cell
abbrev Catalog := Relational.Catalog TableName ColumnName IndexName TriggerName Cell
abbrev Statement := Relational.Statement TableName ColumnName IndexName TriggerName Cell
abbrev Database := Relational.Database TableName ColumnName IndexName TriggerName Cell

/-- `INTEGER PRIMARY KEY AUTOINCREMENT` -/
def auto_id (c : ColumnName) : Column := { name := c, type := .INTEGER, primary_key := true, autoincrement := true }

/-- A column that may be NULL. -/
def optional (type : ColumnType) (c : ColumnName) : Column := { name := c, type }

/-- `NOT NULL` -/
def required (type : ColumnType) (c : ColumnName) : Column := { name := c, type, not_null := true }

/-- `NOT NULL DEFAULT` -/
def defaulting (type : ColumnType) (c : ColumnName) (v : Cell) : Column := { name := c, type, not_null := true, initial := some (.literal v) }

/-- `REFERENCES` -/
def refer (column : Column) (table : TableName) (target : ColumnName) (on_delete : OnDelete) : Column :=
  { column with references := some { table, column := target, on_delete } }

/-- `CHECK(name IN (..))` -/
def listed (column : Column) (values : List String) : Column := { column with check := some (.one_of (values.map Cell.text)) }

/-- `CHECK(json_valid(name))` -/
def json (column : Column) : Column := { column with check := some .valid }

/-- `CREATE TABLE IF NOT EXISTS` -/
def table (t : TableName) (columns : List Column) : Statement := .create_table true t (.table columns)

/-- `CREATE INDEX IF NOT EXISTS` -/
def index (i : IndexName) (table : TableName) (columns : List ColumnName) : Statement :=
  .create_index true i { table, columns := columns.map fun c => (c,.asc) }

/-- `CREATE INDEX IF NOT EXISTS .. WHERE` -/
def index_where (i : IndexName) (table : TableName) (columns : List ColumnName) (condition : Condition ColumnName Cell) : Statement :=
  .create_index true i { table, columns := columns.map fun c => (c,.asc), condition := some condition }

/-- `CREATE UNIQUE INDEX IF NOT EXISTS` -/
def unique_index (i : IndexName) (table : TableName) (columns : List ColumnName) : Statement :=
  .create_index true i { table, columns := columns.map fun c => (c,.asc), unique := true }

def TABLES_DDL : List Statement :=
  [table .events
    [auto_id .id,required .TEXT .timestamp,required .TEXT .event_type,defaulting .TEXT .payload (.text "\x7b\x7d"),required .TEXT .source,
      optional .TEXT .session_id,refer (defaulting .INTEGER .scope_id (.integer 1)) .scopes .id .no_action,
      defaulting .TEXT .origin_node_id (.text "local"),defaulting .INTEGER .sequence_id (.integer 0),optional .TEXT .created_at,
      defaulting .INTEGER .event_revision (.integer 1)],
  table .facts
    [auto_id .id,required .TEXT .content,required .TEXT .content_hash,required .BLOB .embedding,
      listed (required .TEXT .fact_type) ["episodic","semantic","procedural"],required .TEXT .t_created,optional .TEXT .t_expired,
      optional .TEXT .t_valid,optional .TEXT .t_invalid,refer (optional .INTEGER .source_event_id) .events .id .no_action,
      defaulting .REAL .importance (.real (1 / 2 : ℚ)),defaulting .INTEGER .access_count (.integer 0),required .TEXT .last_accessed,
      json (defaulting .TEXT .metadata (.text "\x7b\x7d")),refer (defaulting .INTEGER .scope_id (.integer 1)) .scopes .id .no_action,
      defaulting .INTEGER .is_pinned (.integer 0),defaulting .REAL .importance_score (.real (1 / 2 : ℚ)),optional .TEXT .surfaced_at],
  table .edges
    [auto_id .id,refer (required .INTEGER .source_fact_id) .facts .id .no_action,refer (required .INTEGER .target_fact_id) .facts .id .no_action,
      required .TEXT .relation_type,defaulting .REAL .weight (.real (1 : ℚ)),required .TEXT .t_created,optional .TEXT .t_expired,
      refer (defaulting .INTEGER .scope_id (.integer 1)) .scopes .id .no_action],
  table .summaries
    [auto_id .id,required .TEXT .content,required .BLOB .embedding,listed (required .TEXT .level) ["local","cluster","global"],
      defaulting .TEXT .source_fact_ids (.text "[]"),required .TEXT .created_at,
      refer (defaulting .INTEGER .scope_id (.integer 1)) .scopes .id .no_action],
  table .config [{ name := .key, type := .TEXT, primary_key := true },required .TEXT .value],
  table .archive_manifest
    [auto_id .id,required .TEXT .pak_path,required .TEXT .created_at,required .INTEGER .fact_count,required .INTEGER .edge_count,
      required .INTEGER .fact_id_min,required .INTEGER .fact_id_max,required .TEXT .t_created_min,required .TEXT .t_created_max,
      required .INTEGER .size_bytes,required .TEXT .blake3_hash],
  unique_index .idx_archive_manifest_path .archive_manifest [.pak_path],
  table .lineage
    [auto_id .lineage_id,refer (required .INTEGER .wisdom_fact_id) .facts .id .cascade,json (required .TEXT .source_fact_ids),
      json (required .TEXT .provenance)],
  unique_index .idx_lineage_wisdom_fact_id .lineage [.wisdom_fact_id],
  table .activities
    [auto_id .id,required .TEXT .session_id,required .TEXT .tool_name,required .TEXT .args_hash,
      json (defaulting .TEXT .args (.text "\x7b\x7d")),optional .TEXT .result_summary,defaulting .TEXT .outcome_class (.text "success"),
      listed (defaulting .TEXT .status (.text "recorded")) ["recorded","deduplicated","ignored","promoted"],
      defaulting .INTEGER .occurrence_count (.integer 1),required .TEXT .first_seen,required .TEXT .last_seen,
      refer (defaulting .INTEGER .scope_id (.integer 1)) .scopes .id .no_action,
      refer (optional .INTEGER .promoted_fact_id) .facts .id .no_action],
  index .idx_activities_session .activities [.session_id],
  index .idx_activities_dedup .activities [.session_id,.tool_name,.args_hash,.outcome_class,.scope_id],
  .create_index true .idx_activities_scope_recent { table := .activities, columns := [(.scope_id,.asc),(.last_seen,.desc)] },
  index .idx_activities_status .activities [.status],
  table .session_checkpoints
    [{ name := .session_id, type := .TEXT, primary_key := true },optional .TEXT .scope_path,optional .TEXT .summary,
      refer (optional .INTEGER .last_activity_id) .activities .id .set_null,required .TEXT .checkpoint_at,
      json (defaulting .TEXT .metadata (.text "\x7b\x7d"))],
  index .idx_checkpoints_scope .session_checkpoints [.scope_path],
  table .embedding_spaces
    [{ name := .name, type := .TEXT, primary_key := true },required .TEXT .model,required .TEXT .provider,required .INTEGER .dim,
      optional .INTEGER .matryoshka_base_dim,defaulting .TEXT .element_type (.text "float32"),
      listed (defaulting .TEXT .status (.text "active")) ["active","populating","deprecated"],
      { required .TEXT .created_at with initial := some .now }],
  .create_index true .idx_embedding_spaces_one_active
    { table := .embedding_spaces, columns := [(.status,.asc)], unique := true, condition := some (.equals .status (.text "active")) },
  .create_table true .fact_vectors (.table
    [refer (required .INTEGER .fact_id) .facts .id .cascade,refer (required .TEXT .space_id) .embedding_spaces .name .cascade,
      required .BLOB .embedding] [.fact_id,.space_id] true),
  index .idx_fact_vectors_space .fact_vectors [.space_id]]

/-- The scopes with the root, the only one without a parent. -/
def SCOPES_DDL : List Statement :=
  [table .scopes
    [auto_id .id,refer (optional .INTEGER .parent_id) .scopes .id .no_action,required .TEXT .label,defaulting .INTEGER .depth (.integer 0)],
  index .idx_scopes_parent .scopes [.parent_id],
  unique_index .idx_scopes_parent_label .scopes [.parent_id,.label],
  .insert true .scopes [(.id,.integer 1),(.parent_id,.null),(.label,.text "root"),(.depth,.integer 0)]]

def FTS5_DDL : List Statement := [.create_table true .facts_fts (.fts5 .content .facts .id "porter unicode61")]

def TRIGGERS_DDL : List Statement :=
  [.create_trigger true .facts_fts_ai { table := .facts, event := .insert, body := [.enter .facts_fts .id .content] },
  .create_trigger true .facts_fts_ad { table := .facts, event := .delete, body := [.remove .facts_fts .id .content] },
  .create_trigger true .facts_fts_au { table := .facts, event := .update, body := [.remove .facts_fts .id .content,.enter .facts_fts .id .content] }]

def INDEXES_DDL : List Statement :=
  [index_where .idx_events_session .events [.session_id] (.is_not_null .session_id),
  index .idx_events_timestamp .events [.timestamp],
  index .idx_facts_expired .facts [.t_expired],
  index .idx_facts_type .facts [.fact_type],
  index .idx_facts_valid .facts [.t_valid,.t_invalid],
  index .idx_facts_hash .facts [.content_hash],
  index .idx_edges_source .edges [.source_fact_id],
  index .idx_edges_target .edges [.target_fact_id],
  index .idx_edges_expired .edges [.t_expired],
  index .idx_facts_scope .facts [.scope_id],
  index .idx_edges_scope .edges [.scope_id],
  index .idx_events_scope .events [.scope_id],
  index .idx_summaries_scope .summaries [.scope_id],
  index_where .idx_facts_pinned .facts [.is_pinned] (.equals .is_pinned (.integer 1)),
  index .idx_facts_importance_score .facts [.importance_score],
  index_where .idx_facts_t_valid_due .facts [.t_valid] (.and (.is_not_null .t_valid) (.is_null .t_expired)),
  index .idx_facts_created .facts [.t_created],
  index .idx_events_origin_seq .events [.origin_node_id,.sequence_id]]

end MemoryEngine.Schema
