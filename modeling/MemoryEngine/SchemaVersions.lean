import MemoryEngine.Migrations
import MemoryEngine.TableRebuild

/-! The schema of each version. The steps lead from the first one to the current one, which
new databases get from a definition of its own. -/

namespace MemoryEngine.Schema
open Relational

def TABLES_V1_DDL : List Statement :=
  [table .events
    [auto_id .id,required .TEXT .timestamp,required .TEXT .event_type,defaulting .TEXT .payload (.text "\x7b\x7d"),required .TEXT .source,
      optional .TEXT .session_id],
  table .facts
    [auto_id .id,required .TEXT .content,required .TEXT .content_hash,required .BLOB .embedding,
      listed (required .TEXT .fact_type) ["episodic","semantic","procedural"],required .TEXT .t_created,optional .TEXT .t_expired,
      optional .TEXT .t_valid,optional .TEXT .t_invalid,refer (optional .INTEGER .source_event_id) .events .id .no_action,
      defaulting .REAL .importance (.real (1 / 2 : ℚ)),defaulting .INTEGER .access_count (.integer 0),required .TEXT .last_accessed,
      json (defaulting .TEXT .metadata (.text "\x7b\x7d"))],
  table .edges
    [auto_id .id,refer (required .INTEGER .source_fact_id) .facts .id .no_action,refer (required .INTEGER .target_fact_id) .facts .id .no_action,
      required .TEXT .relation_type,defaulting .REAL .weight (.real (1 : ℚ)),required .TEXT .t_created,optional .TEXT .t_expired],
  table .summaries
    [auto_id .id,required .TEXT .content,required .BLOB .embedding,listed (required .TEXT .level) ["local","cluster","global"],
      defaulting .TEXT .source_fact_ids (.text "[]"),required .TEXT .created_at],
  table .config [{ name := .key, type := .TEXT, primary_key := true },required .TEXT .value]]

def INDEXES_V1_DDL : List Statement :=
  [index_where .idx_events_session .events [.session_id] (.is_not_null .session_id),
  index .idx_events_timestamp .events [.timestamp],
  index .idx_facts_expired .facts [.t_expired],
  index .idx_facts_type .facts [.fact_type],
  index .idx_facts_valid .facts [.t_valid,.t_invalid],
  index .idx_facts_hash .facts [.content_hash],
  index .idx_edges_source .edges [.source_fact_id],
  index .idx_edges_target .edges [.target_fact_id],
  index .idx_edges_expired .edges [.t_expired]]

/-- New databases of version 2 had one reference to the scopes. -/
def TABLES_V2_DDL : List Statement :=
  [table .events
    [auto_id .id,required .TEXT .timestamp,required .TEXT .event_type,defaulting .TEXT .payload (.text "\x7b\x7d"),required .TEXT .source,
      optional .TEXT .session_id,defaulting .INTEGER .scope_id (.integer 1)],
  table .facts
    [auto_id .id,required .TEXT .content,required .TEXT .content_hash,required .BLOB .embedding,
      listed (required .TEXT .fact_type) ["episodic","semantic","procedural"],required .TEXT .t_created,optional .TEXT .t_expired,
      optional .TEXT .t_valid,optional .TEXT .t_invalid,refer (optional .INTEGER .source_event_id) .events .id .no_action,
      defaulting .REAL .importance (.real (1 / 2 : ℚ)),defaulting .INTEGER .access_count (.integer 0),required .TEXT .last_accessed,
      json (defaulting .TEXT .metadata (.text "\x7b\x7d")),refer (defaulting .INTEGER .scope_id (.integer 1)) .scopes .id .no_action],
  table .edges
    [auto_id .id,refer (required .INTEGER .source_fact_id) .facts .id .no_action,refer (required .INTEGER .target_fact_id) .facts .id .no_action,
      required .TEXT .relation_type,defaulting .REAL .weight (.real (1 : ℚ)),required .TEXT .t_created,optional .TEXT .t_expired,
      defaulting .INTEGER .scope_id (.integer 1)],
  table .summaries
    [auto_id .id,required .TEXT .content,required .BLOB .embedding,listed (required .TEXT .level) ["local","cluster","global"],
      defaulting .TEXT .source_fact_ids (.text "[]"),required .TEXT .created_at,defaulting .INTEGER .scope_id (.integer 1)],
  table .config [{ name := .key, type := .TEXT, primary_key := true },required .TEXT .value]]

def shaped (foreign_keys : Bool) (statements : List Statement) (k : Catalog) : Catalog := (shapes foreign_keys statements k).getD k

def schema_v1 : Catalog := shaped true (TABLES_V1_DDL ++ FTS5_DDL ++ TRIGGERS_DDL ++ INDEXES_V1_DDL) Catalog.empty

def schema_v2 : Catalog := shaped true (TABLES_V2_DDL ++ SCOPES_DDL ++ FTS5_DDL ++ TRIGGERS_DDL ++ INDEXES_V1_DDL ++ SCOPE_INDEXES_V2) Catalog.empty

/-- The schema of a new database. -/
def current : Catalog := shaped true (TABLES_DDL ++ SCOPES_DDL ++ FTS5_DDL ++ TRIGGERS_DDL ++ INDEXES_DDL) Catalog.empty

/-- The definitions in a step to a version. -/
def definitions : Nat → List Statement
  | 2 => SCOPES_V2 ++ SCOPE_COLUMNS_V2 ++ SCOPE_INDEXES_V2
  | 3 => DROP_FTS_V3 ++ rebuild .events .events_new EVENTS_V3 ++ rebuild .facts .facts_new FACTS_V3 ++ rebuild .edges .edges_new EDGES_V3 ++
      rebuild .summaries .summaries_new SUMMARIES_V3 ++ FTS_V3 ++ FTS_TRIGGERS_V3 ++ INDEXES_V3
  | 4 => FACT_COLUMNS_V4 ++ EVENT_COLUMNS_V4 ++ INDEXES_V4
  | 5 => REVISION_V5
  | 6 => SURFACED_V6
  | 7 => MANIFEST_V7
  | 8 => LINEAGE_V8
  | 9 => ACTIVITIES_V9
  | 10 => DEDUP_V10
  | 11 => CREATED_V11
  | 13 => SPACES_V13
  | 14 => VECTORS_V14
  | _ => []

/-- The one step around which foreign keys are off. -/
def enforced (target : Nat) : Bool := target ≠ 3

/-- New databases of version 9 had an index that lacked a column. -/
def short_dedup (k : Catalog) : Catalog :=
  { k with indexes := Function.update k.indexes .idx_activities_dedup (some
    { table := .activities, columns := [(.session_id,.asc),(.tool_name,.asc),(.args_hash,.asc),(.outcome_class,.asc)] }) }

/-- The schemas that databases of a version have. -/
def schemas : Nat → List Catalog
  | 0 => []
  | 1 => [schema_v1]
  | 2 => [shaped true (definitions 2) schema_v1,schema_v2]
  | 9 =>
    let stepped := (schemas 8).map (shaped true (definitions 9))
    stepped ++ stepped.map short_dedup
  | v + 1 => (schemas v).map (shaped (enforced (v + 1)) (definitions (v + 1)))

/-- A step leads to a schema of the next version. -/
theorem mem_schemas_succ {v : Nat} {k : Catalog} (schema : k ∈ schemas v) : shaped (enforced (v + 1)) (definitions (v + 1)) k ∈ schemas (v + 1) := by
  by_cases first : v = 1
  · subst first
    cases List.mem_singleton.mp schema
    exact List.mem_cons_self
  · by_cases eighth : v = 8
    · subst eighth
      exact List.mem_append_left _ (List.mem_map_of_mem schema)
    · rw [schemas]
      · exact List.mem_map_of_mem schema
      · rintro rfl
        cases schema
      · exact first
      · exact eighth

/-- The same objects. -/
def Same (k k' : Catalog) : Prop := (∀ t, k.tables t = k'.tables t) ∧ (∀ i, k.indexes i = k'.indexes i) ∧ ∀ g, k.triggers g = k'.triggers g

instance (k k' : Catalog) : Decidable (Same k k') := by
  unfold Same
  infer_instance

theorem Same.eq {k k' : Catalog} (same : Same k k') : k = k' := Catalog.ext (funext same.1) (funext same.2.1) (funext same.2.2)

/-- The steps end in the schema of a new database. -/
theorem schemas_current : ∀ k ∈ schemas 14, Same k current := by decide +kernel

end MemoryEngine.Schema
