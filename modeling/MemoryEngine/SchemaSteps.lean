import MemoryEngine.ColumnUpdates
import MemoryEngine.ConfigRows

/-! Each step takes every database of its version to one of the next, with the rows it had. -/

namespace MemoryEngine.Schema
open Relational Transaction

/-- The tables whose rows a step rewrites in its own way. -/
def apart : List TableName := [.config,.facts_fts]

theorem free_apart : Free apart current := by
  unfold Free
  decide +kernel

instance (k : Catalog) : Decidable (Configured k) :=
  decidable_of_iff (k.columns .config = [{ name := .key, type := .TEXT, primary_key := true },required .TEXT .value] ∧ k.key .config = [.key] ∧
      (∀ i, ∀ d ∈ k.indexes i, d.table ≠ .config) ∧ (k.fired .insert .config = [] ∧ k.fired .update .config = [] ∧ k.fired .delete .config = []) ∧
      k.referring .config = [])
    ⟨fun ⟨columns,key,unindexed,quiet,unreferenced⟩ => ⟨columns,key,unindexed,fun event => by cases event <;> simp [quiet],unreferenced⟩,
      fun configured => ⟨configured.columns,configured.key,configured.unindexed,⟨configured.quiet _,configured.quiet _,configured.quiet _⟩,configured.unreferenced⟩⟩

theorem columns_config : current.columns .config = [{ name := .key, type := .TEXT, primary_key := true },required .TEXT .value] := by decide +kernel

section config
variable {valid : Cell → Bool} {db : Database} {key value : String} {rows : List (ColumnName → Cell)}

/-- Rows of the configuration with the values of before or with texts. -/
theorem conforms_config (conforms : Conforms valid current db) (each : ∀ r' ∈ rows, r' ∈ db.rows .config ∨ ∃ s, r' .value = .text s) :
    Conforms valid current (db.with_rows .config rows) := by
  refine conforms.with_rows free_apart (by decide) fun r' stored c required _ => ?_
  rcases each r' stored with old | ⟨s,has⟩
  · exact .inl ⟨r',old,rfl⟩
  · rw [columns_config] at required
    rcases List.mem_pair.mp required with rfl | rfl
    · exact .inr ⟨⟨fun strict => absurd strict (by decide),fun _ none_here => by cases none_here⟩,fun _ none_here => by cases none_here⟩
    · refine .inr ⟨⟨fun _ => ?_,fun _ none_here => by cases none_here⟩,fun _ none_here => by cases none_here⟩
      change r' .value ≠ null
      rw [has]
      simp [null]

theorem conforms_put (conforms : Conforms valid current db) : Conforms valid current (db.with_rows .config (put key value (db.rows .config))) :=
  conforms_config conforms fun _ listed => (value_of_mem_put listed).imp_right fun has => ⟨value,has⟩

theorem conforms_filter {kept : (ColumnName → Cell) → Bool} (conforms : Conforms valid current db) :
    Conforms valid current (db.with_rows .config ((db.rows .config).filter kept)) :=
  conforms_config conforms fun _ listed => .inl (List.mem_filter.mp listed).1

end config

/-- The tables that the step to version 3 rebuilds. -/
def rebuilt : List TableName := [.events,.facts,.edges,.summaries]

/-- What every schema has. -/
structure Usual (k : Catalog) : Prop where
  configured : Configured k
  facts : .id ∈ k.names .facts ∧ .content ∈ k.names .facts
  ids : ∀ t ∈ rebuilt, k.key t = [.id] ∧ .id ∈ k.names t
  /-- The references of a column are those it has in a new database. -/
  references : ∀ t, ∀ c ∈ k.columns t, ∀ ref ∈ c.references, ∃ c' ∈ current.columns t, c'.name = c.name ∧ ref ∈ c'.references

instance (k : Catalog) : Decidable (Usual k) :=
  decidable_of_iff (Configured k ∧ (ColumnName.id ∈ k.names .facts ∧ .content ∈ k.names .facts) ∧
      (∀ t ∈ rebuilt, k.key t = [ColumnName.id] ∧ .id ∈ k.names t) ∧
      ∀ t, ∀ c ∈ k.columns t, ∀ ref ∈ c.references, ∃ c' ∈ current.columns t, c'.name = c.name ∧ ref ∈ c'.references)
    ⟨fun ⟨a,b,c,d⟩ => ⟨a,b,c,d⟩,fun ⟨a,b,c,d⟩ => ⟨a,b,c,d⟩⟩

theorem usual_of_schema : ∀ v < 15, ∀ k ∈ schemas v, Usual k := by decide +kernel

/-- The text index has an entry for each fact. -/
def Synced (db : Database) : Prop := db.Indexed .facts_fts .facts .id .content

/-- No two rows of the tables to rebuild have one id. -/
def Distinct (db : Database) : Prop := ∀ t ∈ rebuilt, (db.rows t).Pairwise fun r r' => same_key [.id] r r' = false

/-- The keys of the configuration that the steps write. -/
def managed : List Cell := [.text "schema_version",.text "embed_dim",.text "embedding_meta"]

section steps
variable (host : Host)

/-- The registry has the identity that the configuration had, as its active space. -/
def Lifted (read : Option String) (db : Database) : Prop :=
  match read with
  | none => db.rows .embedding_spaces = []
  | some raw => ∃ fp values, host.from_str raw = .ok fp ∧ fp.space = .ok values ∧ ∃ r, db.rows .embedding_spaces = [r] ∧ ∀ x ∈ values, r x.1 = x.2

/-- The statements of a step, without the new version. -/
structure Stepped (v : Nat) (db db' : Database) : Prop where
  schema : db'.catalog ∈ schemas (v + 1)
  keeps : Keeps apart [] db db'
  conforms : Conforms host.json_valid current db'
  synced : v = 2 ∨ Synced db → Synced db'
  config : ∀ r ∈ db.rows .config, r .key ∉ managed → r ∈ db'.rows .config
  settings : ∀ key, .text key ∉ managed ∨ key = "schema_version" → stored (db'.rows .config) key = stored (db.rows .config) key
  identity : v ≠ 12 → stored (db'.rows .config) "embedding_meta" = stored (db.rows .config) "embedding_meta"
  lifted : v = 12 → stored (db'.rows .config) "embedding_meta" = none ∧ ∀ read, Reads db "embedding_meta" read → Lifted host read db'

variable {host} {env : Env Cell} {db m db' : Database} {v : Nat}

theorem map_of_agree {columns : List ColumnName} {rows rows' : List (ColumnName → Cell)} (same : List.Forall₂ (Agree columns) rows rows')
    (id : .id ∈ columns) (content : .content ∈ columns) :
    rows'.map (fun r => (r .id,r .content)) = rows.map fun r => (r .id,r .content) := by
  induction same with
  | nil => rfl
  | cons head _ ih => rw [List.map_cons,List.map_cons,ih,head _ id,head _ content]

theorem Synced.keeps (synced : Synced db) (keeps : Keeps apart [] db db') (named : .id ∈ db.catalog.names .facts ∧ .content ∈ db.catalog.names .facts)
    (postings : db'.postings .facts_fts = db.postings .facts_fts) : Synced db' := by
  unfold Synced Database.Indexed
  rw [postings,map_of_agree (keeps.rows (by decide) (names_subset_columns named.1)) named.1 named.2]
  exact synced

theorem synced_with_config {rows : List (ColumnName → Cell)} : Synced (db.with_rows .config rows) ↔ Synced db := by
  unfold Synced Database.Indexed
  rw [db.with_rows_postings,db.with_rows_ne .config rows (by decide)]

/-- A step that leaves the configuration. -/
theorem stepped_of_keeps (other : v ≠ 12) (schema : db'.catalog ∈ schemas (v + 1)) (keeps : Keeps apart [] db db')
    (conforms : Conforms host.json_valid current db') (synced : v = 2 ∨ Synced db → Synced db') (rows : db'.rows .config = db.rows .config) :
    Stepped host v db db' where
  schema
  keeps
  conforms
  synced
  config r listed _ := by
    rw [rows]
    exact listed
  settings key _ := by rw [rows]
  identity _ := by rw [rows]
  lifted same := absurd same other

/-- Definitions that may run lead to a schema of the next version. -/
theorem schema_of_shapes {k k' : Catalog} (schema : k ∈ schemas v) (shape : shapes (enforced (v + 1)) (definitions (v + 1)) k = some k') :
    k' ∈ schemas (v + 1) := by
  have next := mem_schemas_succ schema
  rw [shaped,shape] at next
  exact next

/-- The versions whose step only defines. -/
def plain : List Nat := [1,4,5,6,7,8,9,10,13]

/-- The tables that the step from a version gives their first row. -/
def seeded : Nat → List TableName
  | 1 => [.scopes]
  | 12 => [.embedding_spaces]
  | _ => []

theorem drafted_plain : ∀ v ∈ plain, ∀ k ∈ schemas v, (∀ t ∈ seeded v, k.tables t = none) ∧
    (drafts current apart (seeded v) (enforced (v + 1)) (definitions (v + 1)) (Draft.of k)).isSome = true := by decide +kernel

theorem subjects_plain : ∀ v ∈ plain, TableName.config ∉ (definitions (v + 1)).flatMap Relational.Statement.subjects ∧
    .facts_fts ∉ (definitions (v + 1)).flatMap Relational.Statement.subjects := by decide

/-- What the catalogs of a version say of a step that only defines. -/
theorem step_plain (listed : v ∈ plain) (enforces : env.foreign_keys = enforced (v + 1)) (valid : env.valid = host.json_valid)
    (schema : db.catalog ∈ schemas v) (conforms : Conforms host.json_valid current db) :
    ∃ db', db.run env (definitions (v + 1)) = some db' ∧ Stepped host v db db' := by
  obtain ⟨new,drafted⟩ := drafted_plain v listed db.catalog schema
  obtain ⟨outside,unindexed⟩ := subjects_plain v listed
  have bound : v < 15 ∧ v ≠ 2 ∧ v ≠ 12 := (by decide : ∀ v ∈ plain, v < 15 ∧ v ≠ 2 ∧ v ≠ 12) v listed
  obtain ⟨d,drafted⟩ := Option.isSome_iff_exists.mp drafted
  rw [← enforces] at drafted
  obtain ⟨db',ran,advances⟩ := run_of_drafts drafted free_apart (Draft.fits_of db) (valid ▸ conforms)
  rw [valid] at advances
  have keeps := advances.keeps.exact new
  refine ⟨db',ran,stepped_of_keeps bound.2.2 (schema_of_shapes schema (enforces ▸ shapes_of_run ran)) keeps advances.conforms ?_ (advances.rows _ outside)⟩
  rintro (same | synced)
  · exact absurd same bound.2.1
  · exact synced.keeps keeps (usual_of_schema v bound.1 _ schema).facts (advances.postings _ unindexed)

/-! ### To version 3: the tables are rebuilt -/

def through_events : List Statement := DROP_FTS_V3 ++ rebuild .events .events_new EVENTS_V3

def through_facts : List Statement := through_events ++ rebuild .facts .facts_new FACTS_V3

def through_edges : List Statement := through_facts ++ rebuild .edges .edges_new EDGES_V3

def through_summaries : List Statement := through_edges ++ rebuild .summaries .summaries_new SUMMARIES_V3

theorem drafted_rebuilds : ∀ k ∈ schemas 2,
    (drafts current apart [] false DROP_FTS_V3 (Draft.of k)).isSome = true ∧
    (∀ k' ∈ shapes false DROP_FTS_V3 k, Rebuildable current k' .events .events_new EVENTS_V3) ∧
    (∀ k' ∈ shapes false through_events k, Rebuildable current k' .facts .facts_new FACTS_V3) ∧
    (∀ k' ∈ shapes false through_facts k, Rebuildable current k' .edges .edges_new EDGES_V3) ∧
    ∀ k' ∈ shapes false through_edges k, Rebuildable current k' .summaries .summaries_new SUMMARIES_V3 := by decide +kernel

theorem drafted_v3 : ∀ k ∈ schemas 2,
    (∀ k' ∈ shapes false through_summaries k, k'.tables .facts_fts = none ∧ (drafts current apart [] false FTS_V3 (Draft.of k')).isSome = true) ∧
    (∀ k' ∈ shapes false (through_summaries ++ FTS_V3) k, (drafts current apart [] false FTS_TRIGGERS_V3 (Draft.of k')).isSome = true) ∧
    ∀ k' ∈ shapes false (through_summaries ++ FTS_V3 ++ FTS_TRIGGERS_V3) k, (drafts current apart [] false INDEXES_V3 (Draft.of k')).isSome = true := by
  decide +kernel

/-- The definitions of version 3 keep the rows of all tables and fill the text index anew. -/
theorem step_to_v3 (off : env.foreign_keys = false) (valid : env.valid = host.json_valid) (schema : db.catalog ∈ schemas 2)
    (conforms : Conforms host.json_valid current db) (distinct : Distinct db) :
    ∃ db', db.run env (definitions 3) = some db' ∧ Stepped host 2 db db' := by
  obtain ⟨drafted,events,facts,edges,summaries⟩ := drafted_rebuilds db.catalog schema
  obtain ⟨drafted_fts,drafted_triggers,drafted_indexes⟩ := drafted_v3 db.catalog schema
  rw [← valid] at conforms
  rw [← off] at drafted events facts edges summaries drafted_fts drafted_triggers drafted_indexes
  obtain ⟨d,drafted⟩ := Option.isSome_iff_exists.mp drafted
  obtain ⟨m₁,dropped,advances₁⟩ := run_of_drafts drafted free_apart (Draft.fits_of db) conforms
  obtain ⟨m₂,ran₂,advances₂⟩ := run_then_rebuild off free_apart dropped advances₁ events (by decide) (distinct .events (by decide))
  obtain ⟨m₃,ran₃,advances₃⟩ := run_then_rebuild off free_apart ran₂ advances₂ facts (by decide) (distinct .facts (by decide))
  obtain ⟨m₄,ran₄,advances₄⟩ := run_then_rebuild off free_apart ran₃ advances₃ edges (by decide) (distinct .edges (by decide))
  obtain ⟨m₅,ran₅,advances₅⟩ := run_then_rebuild off free_apart ran₄ advances₄ summaries (by decide) (distinct .summaries (by decide))
  obtain ⟨m₆,_,ran₆,filled,advances₆⟩ := run_then_drafts free_apart ran₅ advances₅.conforms fun k shape => (drafted_fts k shape).2
  obtain ⟨m₇,_,ran₇,_,advances₇⟩ := run_then_drafts free_apart ran₆ advances₆.conforms drafted_triggers
  obtain ⟨m₈,_,ran₈,_,advances₈⟩ := run_then_drafts free_apart ran₇ advances₇.conforms drafted_indexes
  have whole := ((advances₅.trans advances₆).trans advances₇).trans advances₈
  have indexed : Synced m₆ := indexed_of_index_select filled (drafted_fts _ (shapes_of_run ran₅)).1 (by decide)
  have synced : Synced m₈ := by
    unfold Synced Database.Indexed
    rw [advances₈.rows _ (by decide),advances₈.postings _ (by decide),advances₇.rows _ (by decide),advances₇.postings _ (by decide)]
    exact indexed
  have shape := shapes_of_run ran₈
  rw [off] at shape
  exact ⟨m₈,ran₈,stepped_of_keeps (by decide) (schema_of_shapes schema shape) whole.keeps (valid ▸ whole.conforms) (fun _ => synced) (whole.rows _ (by decide))⟩

/-! ### To version 4: the score of each fact starts from its importance -/

theorem drafted_v4 : ∀ k ∈ schemas 3,
    (drafts current apart [] (enforced 4) FACT_COLUMNS_V4 (Draft.of k)).isSome = true ∧ .importance_score ∉ k.names .facts ∧
    ∀ k' ∈ shapes (enforced 4) FACT_COLUMNS_V4 k,
      (ColumnName.importance_score ∈ k'.names .facts ∧ .importance ∈ k'.names .facts) ∧
      (ColumnName.id ∈ k'.names .facts ∧ .content ∈ k'.names .facts) ∧
      (∀ c ∈ k'.columns .facts, c.name = .importance_score → c.references = none ∧ c.check = none) ∧
      k'.fired .update .facts = [.remove .facts_fts .id .content,.enter .facts_fts .id .content] ∧
      (drafts current apart [] (enforced 4) (EVENT_COLUMNS_V4 ++ INDEXES_V4) (Draft.of k')).isSome = true := by decide +kernel

theorem scored_v4 : (∃ c ∈ current.columns .facts, c.name = .importance ∧ c.not_null = true) ∧
    (∀ c ∈ current.columns .facts, c.name = .importance_score → c.references = none ∧ c.check = none) ∧
    ∀ t, ∀ c ∈ current.columns t, ∀ ref ∈ c.references, ref.table = .facts → ref.column ≠ .importance_score := by decide +kernel

/-- A value that is not NULL meets the constraints of a column without a check. -/
theorem admits_of_unchecked {c : Column} {x : Cell} (unchecked : c.check = none) (given : x ≠ null) : c.Admits env.valid x := by
  refine ⟨fun _ => given,fun check has => ?_⟩
  rw [unchecked] at has
  cases has

/-- The update of the facts goes through the triggers of the text index. -/
theorem step_to_v4 (enforces : env.foreign_keys = enforced 4) (valid : env.valid = host.json_valid) (schema : db.catalog ∈ schemas 3)
    (conforms : Conforms host.json_valid current db) (synced : Synced db) :
    ∃ db', db.run env (FACT_COLUMNS_V4 ++ ([.update_column .facts .importance_score .importance] ++ (EVENT_COLUMNS_V4 ++ INDEXES_V4))) = some db' ∧
      Stepped host 3 db db' := by
  obtain ⟨drafted,new,later⟩ := drafted_v4 db.catalog schema
  obtain ⟨⟨column,required,is_importance,not_null⟩,unchecked,unreferenced⟩ := scored_v4
  rw [← valid] at conforms
  rw [← enforces] at drafted later
  obtain ⟨d,drafted⟩ := Option.isSome_iff_exists.mp drafted
  obtain ⟨m₁,ran₁,advances₁⟩ := run_of_drafts drafted free_apart (Draft.fits_of db) conforms
  obtain ⟨named,indexed,unchecked₁,fired,drafted_rest⟩ := later m₁.catalog (shapes_of_run ran₁)
  have given : ∀ r ∈ m₁.rows .facts, r .importance ≠ null := by
    intro r stored
    have holds := advances₁.conforms .facts r stored column required (is_importance ▸ named.2)
    rw [is_importance] at holds
    exact holds.1.1 not_null
  have synced₁ : Synced m₁ := synced.keeps advances₁.keeps (usual_of_schema 3 (by decide) _ schema).facts (advances₁.postings _ (by decide))
  obtain ⟨entries,updated,perm⟩ := exec_update_column env named
    (fun r stored c defined same => ⟨(unchecked₁ c defined same).1,admits_of_unchecked (unchecked₁ c defined same).2 (given r stored)⟩)
    fired (by decide) synced₁
  let scored := m₁.overwritten .facts .importance_score fun r => r .importance
  let m₂ := scored.with_postings .facts_fts entries
  have synced₂ : Synced m₂ := indexed_overwritten synced₁ (by decide) perm
  have keeps₂ : Keeps apart [] db m₂ := (advances₁.keeps.overwrite new).trans (Keeps.of_tables rfl rfl)
  have conforms₂ : Conforms env.valid current m₂ :=
    (advances₁.conforms.overwrite unreferenced fun r stored c required same =>
      ⟨(unchecked c required same).1,admits_of_unchecked (unchecked c required same).2 (given r stored)⟩).of_tables rfl rfl
  obtain ⟨d',drafted_rest⟩ := Option.isSome_iff_exists.mp drafted_rest
  obtain ⟨m₃,ran₃,advances₃⟩ := run_of_drafts drafted_rest free_apart (Draft.fits_of m₂) conforms₂
  refine ⟨m₃,?_,stepped_of_keeps (by decide) ?_ (keeps₂.trans advances₃.keeps) (valid ▸ advances₃.conforms) (fun _ => ?_) ?_⟩
  · rw [run_append,ran₁]
    change (m₁.exec env _).bind (fun d => d.run env (EVENT_COLUMNS_V4 ++ INDEXES_V4)) = _
    rw [updated]
    exact ran₃
  · refine schema_of_shapes schema ?_
    have rest : shapes env.foreign_keys (EVENT_COLUMNS_V4 ++ INDEXES_V4) m₂.catalog = some m₃.catalog := shapes_of_run ran₃
    rw [show definitions 4 = FACT_COLUMNS_V4 ++ (EVENT_COLUMNS_V4 ++ INDEXES_V4) from rfl,shapes_append,← enforces,shapes_of_run ran₁]
    exact rest
  · exact synced₂.keeps advances₃.keeps indexed (advances₃.postings _ (by decide))
  · have untouched : scored.rows .config = m₁.rows .config := m₁.overwritten_ne (by decide)
    exact (advances₃.rows .config (by decide)).trans (untouched.trans (advances₁.rows .config (by decide)))

/-! ### To version 12: the dimension goes -/

/-- A key that the steps take away goes alone. -/
theorem config_of_deleted {gone : String} (steps_write : .text gone ∈ managed) (passing : gone ≠ "schema_version")
    (rows : db'.rows .config = (db.rows .config).filter fun r => r .key ≠ .text gone) :
    (∀ r ∈ db.rows .config, r .key ∉ managed → r ∈ db'.rows .config) ∧
      ∀ key, .text key ∉ managed ∨ key = "schema_version" → stored (db'.rows .config) key = stored (db.rows .config) key := by
  rw [rows]
  refine ⟨fun r listed unmanaged => List.mem_filter.mpr ⟨listed,decide_eq_true ?_⟩,fun key kept => stored_filter ?_⟩
  · rintro same
    exact unmanaged (same ▸ steps_write)
  · rintro rfl
    exact kept.elim (fun unmanaged => unmanaged steps_write) passing

theorem step_to_v12 (schema : db.catalog ∈ schemas 11) (conforms : Conforms host.json_valid current db) :
    ∃ db', db.run env EMBED_DIM_V12 = some db' ∧ Stepped host 11 db db' := by
  have configured := (usual_of_schema 11 (by decide) _ schema).configured
  refine ⟨_,commits_execute_batch.mp (commits_bind.mpr ⟨(),_,commits_delete configured,commits_pure.mpr ⟨rfl,rfl⟩⟩),?_⟩
  have rows := db.with_rows_self .config ((db.rows .config).filter fun r => r .key ≠ .text "embed_dim")
  obtain ⟨config,settings⟩ := config_of_deleted (by decide) (by decide) rows
  exact
    { schema := schema_of_shapes schema rfl
      keeps := Keeps.with_rows (by decide)
      conforms := conforms_filter conforms
      synced := fun either => synced_with_config.mpr (either.resolve_left (by decide))
      config
      settings
      identity := fun _ => by
        rw [rows]
        exact stored_filter (by decide)
      lifted := fun same => absurd same (by decide) }

/-! ### To version 13: the identity becomes a space -/

/-- The columns of the registry. -/
def spaces : List Column :=
  [{ name := .name, type := .TEXT, primary_key := true },required .TEXT .model,required .TEXT .provider,required .INTEGER .dim,
    optional .INTEGER .matryoshka_base_dim,defaulting .TEXT .element_type (.text "float32"),
    listed (defaulting .TEXT .status (.text "active")) ["active","populating","deprecated"],
    { required .TEXT .created_at with initial := some .now }]

theorem space_eq {fp : V12Fingerprint} {values : List (ColumnName × Cell)} (converted : fp.space = .ok values) :
    ∃ dim base, dim ≠ null ∧ values = [(.name,.text "default"),(.model,.text fp.model),(.provider,.text fp.provider),(.dim,dim),(.matryoshka_base_dim,base),
      (.element_type,.text fp.element_type),(.status,.text "active")] := by
  unfold V12Fingerprint.space to_i64 at converted
  by_cases fits : fp.dim < 2 ^ 63
  · rw [if_pos fits] at converted
    cases some_base : fp.matryoshka_base_dim with
    | none =>
      rw [some_base] at converted
      cases converted
      exact ⟨_,_,by simp [null],rfl⟩
    | some d =>
      rw [some_base] at converted
      by_cases fits' : d < 2 ^ 63
      · simp only [if_pos fits'] at converted
        cases converted
        exact ⟨_,_,by simp [null],rfl⟩
      · simp only [if_neg fits'] at converted
        cases converted
  · rw [if_neg fits] at converted
    cases converted

theorem columns_spaces : current.columns .embedding_spaces = spaces := by decide +kernel

theorem holds_space {fp : V12Fingerprint} {values : List (ColumnName × Cell)} (converted : fp.space = .ok values) (now : env.now ≠ null)
    (columns : m.catalog.columns .embedding_spaces = spaces) :
    ∀ c ∈ spaces, c.Holds env.valid m (m.filled env .embedding_spaces values c.name) := by
  obtain ⟨dim,base,given,rfl⟩ := space_eq converted
  have created : m.filled env .embedding_spaces [(.name,.text "default"),(.model,.text fp.model),(.provider,.text fp.provider),(.dim,dim),
      (.matryoshka_base_dim,base),(.element_type,.text fp.element_type),(.status,.text "active")] .created_at = env.now := by
    rw [Database.filled,Catalog.blank,columns]
    rfl
  have unreferring : ∀ c ∈ spaces, c.references = none := by decide
  intro c listed
  refine ⟨⟨fun strict => ?_,?_⟩,fun ref has => ?_⟩
  · simp only [spaces,List.mem_cons,List.not_mem_nil,or_false] at listed
    rcases listed with rfl | rfl | rfl | rfl | rfl | rfl | rfl | rfl
    · cases strict
    · exact (filled_lookup rfl).trans_ne (by simp [null])
    · exact (filled_lookup rfl).trans_ne (by simp [null])
    · exact (filled_lookup rfl).trans_ne given
    · cases strict
    · exact (filled_lookup rfl).trans_ne (by simp [null])
    · exact (filled_lookup rfl).trans_ne (by simp [null])
    · exact created.trans_ne now
  · have only_status : ∀ c ∈ spaces, ∀ check ∈ c.check, c.name = .status ∧ check.Settled (.text "active") := by decide
    intro check has
    obtain ⟨is_status,settled⟩ := only_status c listed check has
    rw [is_status,filled_lookup rfl]
    exact .inr settled.holds
  · rw [unreferring c listed] at has
    cases has

theorem names_space {fp : V12Fingerprint} {values : List (ColumnName × Cell)} (converted : fp.space = .ok values) :
    ∀ x ∈ values, x.1 ∈ spaces.map Column.name := by
  obtain ⟨dim,base,_,rfl⟩ := space_eq converted
  intro x listed
  have names : ∀ c ∈ [ColumnName.name,.model,.provider,.dim,.matryoshka_base_dim,.element_type,.status], c ∈ spaces.map Column.name := by decide
  exact names x.1 (List.mem_map_of_mem listed)

/-- The row of a space has the values that are given. -/
theorem given_space {fp : V12Fingerprint} {values : List (ColumnName × Cell)} (converted : fp.space = .ok values) (env : Env Cell) (m : Database) :
    ∀ x ∈ values, m.filled env .embedding_spaces values x.1 = x.2 := by
  obtain ⟨dim,base,_,rfl⟩ := space_eq converted
  intro x listed
  refine filled_lookup ?_
  simp only [List.mem_cons,List.not_mem_nil,or_false] at listed
  rcases listed with rfl | rfl | rfl | rfl | rfl | rfl | rfl <;> rfl

/-- A space goes into an empty registry. -/
theorem insert_space {fp : V12Fingerprint} {values : List (ColumnName × Cell)} (converted : fp.space = .ok values) (now : env.now ≠ null)
    (conforms : Conforms env.valid current m) (columns : m.catalog.columns .embedding_spaces = spaces)
    (quiet : m.catalog.fired .insert .embedding_spaces = []) (empty : m.rows .embedding_spaces = []) :
    let m' := m.with_rows .embedding_spaces [m.filled env .embedding_spaces values]
    m.exec env (.insert false .embedding_spaces values) = some m' ∧
      Advances env.valid current apart [.embedding_spaces] [.embedding_spaces] (Draft.of m'.catalog) m m' := by
  intro m'
  have holds := holds_space converted now columns
  have names : m.catalog.names .embedding_spaces = spaces.map Column.name := congrArg (List.map Column.name) columns
  have shape : (Relational.Statement.insert false .embedding_spaces values : Statement).shape env.foreign_keys m.catalog = some m.catalog :=
    if_pos (names ▸ names_space converted)
  refine ⟨exec_eq_some (d := m') shape (insert_row_blank empty quiet (columns ▸ holds)),?_⟩
  exact advances_insert conforms free_apart (List.mem_singleton_self TableName.embedding_spaces) empty (Draft.fits_of m')
    fun c required _ => holds c (columns_spaces ▸ required)

theorem drafted_v13 : ∀ k ∈ schemas 12, k.tables .embedding_spaces = none ∧
    (∃ d ∈ drafts current apart [.embedding_spaces] (enforced 13) SPACES_V13 (Draft.of k), .embedding_spaces ∈ d.blank) ∧
    ∀ k' ∈ shapes (enforced 13) SPACES_V13 k, Configured k' ∧ k'.columns .embedding_spaces = spaces ∧ k'.fired .insert .embedding_spaces = [] := by
  decide +kernel

/-- The identity of the configuration is none, or one that decodes. -/
def Legible (host : Host) (db : Database) : Prop :=
  ∃ read, Reads db "embedding_meta" read ∧ ∀ raw ∈ read, ∃ fp values, host.from_str raw = .ok fp ∧ fp.space = .ok values

theorem step_to_v13 (enforces : env.foreign_keys = enforced 13) (valid : env.valid = host.json_valid) (now : env.now ≠ null)
    (schema : db.catalog ∈ schemas 12) (conforms : Conforms host.json_valid current db) (legible : Legible host db) :
    ∃ db', Commits (migrate_v12_to_v13 host env) db () db' ∧ Stepped host 12 db db' := by
  obtain ⟨new,drafted,later⟩ := drafted_v13 db.catalog schema
  obtain ⟨read,reads,decodes⟩ := legible
  rw [← valid] at conforms
  rw [← enforces] at drafted later
  obtain ⟨d,drafted,blank⟩ := drafted
  obtain ⟨m,ran,advances⟩ := run_of_drafts drafted free_apart (Draft.fits_of db) conforms
  obtain ⟨configured,columns,quiet⟩ := later m.catalog (shapes_of_run ran)
  have empty : m.rows .embedding_spaces = [] := advances.fits.blank _ blank
  have same : m.rows .config = db.rows .config := advances.rows _ (by decide)
  have reads' : Reads m "embedding_meta" read := by
    unfold Reads
    rw [same]
    exact reads
  have schema' : m.catalog ∈ schemas 13 := schema_of_shapes schema (enforces ▸ shapes_of_run ran)
  have seeds : ∀ t ∈ [TableName.embedding_spaces], db.catalog.tables t = none := fun t listed => List.mem_singleton.mp listed ▸ new
  have named := (usual_of_schema 12 (by decide) _ schema).facts
  cases read with
  | none =>
    have keeps := advances.keeps.exact seeds
    refine ⟨m,commits_bind.mpr ⟨(),m,commits_execute_batch.mpr ran,commits_bind.mpr ⟨none,m,(commits_get_config configured).mpr reads',commits_pure.mpr ⟨rfl,rfl⟩⟩⟩,?_⟩
    exact
      { schema := schema'
        keeps
        conforms := valid ▸ advances.conforms
        synced := fun either => (either.resolve_left (by decide)).keeps keeps named (advances.postings _ (by decide))
        config := fun r listed _ => same ▸ listed
        settings := fun key _ => by rw [same]
        identity := fun _ => by rw [same]
        lifted := fun _ => ⟨reads',fun read' again => by rw [again.unique reads]; exact empty⟩ }
  | some raw =>
    obtain ⟨fp,values,decoded,converted⟩ := decodes raw rfl
    let r := m.filled env .embedding_spaces values
    let m₂ := m.with_rows .embedding_spaces [r]
    let left := (m₂.rows .config).filter fun r => r .key ≠ .text "embedding_meta"
    obtain ⟨inserted,advances₂⟩ := insert_space converted now advances.conforms columns quiet empty
    have both := advances.trans advances₂
    have keeps : Keeps apart [] db (m₂.with_rows .config left) := (both.keeps.exact seeds).trans (Keeps.with_rows (by decide))
    have same₂ : m₂.rows .config = db.rows .config := both.rows _ (by decide)
    have rows : (m₂.with_rows .config left).rows .config = (db.rows .config).filter fun r => r .key ≠ .text "embedding_meta" := by
      rw [m₂.with_rows_self,← same₂]
    obtain ⟨config,settings⟩ := config_of_deleted (by decide) (by decide) rows
    refine ⟨m₂.with_rows .config left,?_,?_⟩
    · refine commits_bind.mpr ⟨(),m,commits_execute_batch.mpr ran,commits_bind.mpr ⟨some raw,m,(commits_get_config configured).mpr reads',?_⟩⟩
      refine commits_bind.mpr ⟨fp,m,commits_lift.mpr ⟨by rw [decoded]; rfl,rfl⟩,commits_bind.mpr ⟨values,m,commits_lift.mpr ⟨converted,rfl⟩,?_⟩⟩
      refine commits_bind.mpr ⟨(),m₂,commits_execute.mpr inserted,commits_execute_batch.mpr ?_⟩
      exact commits_execute_batch.mp (commits_bind.mpr ⟨(),_,commits_delete configured,commits_pure.mpr ⟨rfl,rfl⟩⟩)
    exact
      { schema := schema'
        keeps
        conforms := valid ▸ conforms_filter both.conforms
        synced := fun either => synced_with_config.mpr ((either.resolve_left (by decide)).keeps (both.keeps.exact seeds) named (both.postings _ (by decide)))
        config
        settings
        identity := fun other => absurd rfl other
        lifted := by
          refine fun _ => ⟨by rw [rows]; exact stored_filter_self,fun read' again => ?_⟩
          rw [again.unique reads]
          exact ⟨fp,values,decoded,converted,r,(m₂.with_rows_ne .config left (by decide)).trans (m.with_rows_self .embedding_spaces [r]),given_space converted env m⟩ }

end steps
end MemoryEngine.Schema
