import MemoryEngine.SchemaVersions

/-! The rows of the `config` table under the statements that read and write them. -/

namespace MemoryEngine.Schema
open Relational Transaction

section scripts
variable {env : Env Cell} {db db' : Database}

theorem run_execute {s : Statement} : (execute env s).run db = match db.exec env s with
    | some db' => .ok ((),db')
    | none => .error (.Storage "SQL error") := rfl

theorem commits_execute {s : Statement} : Commits (execute env s) db () db' ↔ db.exec env s = some db' := by
  rw [Commits,run_execute]
  cases db.exec env s with
  | none => simp
  | some m => simp

theorem commits_execute_batch {statements : List Statement} : Commits (execute_batch env statements) db () db' ↔ db.run env statements = some db' := by
  unfold execute_batch
  induction statements generalizing db with
  | nil =>
    rw [run_nil,Option.some.injEq]
    exact commits_pure.trans ⟨fun both => both.2.symm,fun same => ⟨rfl,same.symm⟩⟩
  | cons s rest ih =>
    rw [run_cons,Option.bind_eq_some_iff]
    refine commits_bind.trans ?_
    constructor
    · rintro ⟨_,m,first,later⟩
      exact ⟨m,commits_execute.mp first,ih.mp later⟩
    · rintro ⟨m,first,later⟩
      exact ⟨(),m,commits_execute.mpr first,ih.mpr later⟩

/-- One script after another runs both lists of statements. -/
theorem commits_then {first more : List Statement} {x rest : Script Unit} (head : ∀ m, Commits x db () m ↔ db.run env first = some m)
    (tail : ∀ m, Commits rest m () db' ↔ m.run env more = some db') : Commits (do x; rest) db () db' ↔ db.run env (first ++ more) = some db' := by
  rw [run_append,Option.bind_eq_some_iff]
  refine commits_bind.trans ?_
  constructor
  · rintro ⟨_,m,before,after⟩
    exact ⟨m,(head m).mp before,(tail m).mp after⟩
  · rintro ⟨m,before,after⟩
    exact ⟨(),m,(head m).mpr before,(tail m).mpr after⟩

theorem commits_execute_run {s : Statement} : Commits (execute env s) db () db' ↔ db.run env [s] = some db' := by
  rw [commits_execute,run_cons]
  cases db.exec env s <;> rfl

/-! ### The scripts of the steps -/

theorem commits_migrate_v1_to_v2 : Commits (migrate_v1_to_v2 env) db () db' ↔ db.run env (definitions 2) = some db' := by
  rw [show definitions 2 = SCOPES_V2 ++ (SCOPE_COLUMNS_V2 ++ SCOPE_INDEXES_V2) from rfl]
  exact commits_then (fun _ => commits_execute_batch) fun _ => commits_then (fun _ => commits_execute_batch) fun _ => commits_execute_batch

theorem commits_migrate_v2_to_v3 : Commits (migrate_v2_to_v3 env) db () db' ↔ db.run env (definitions 3) = some db' := by
  rw [show definitions 3 = DROP_FTS_V3 ++ (rebuild .events .events_new EVENTS_V3 ++ (rebuild .facts .facts_new FACTS_V3 ++
      (rebuild .edges .edges_new EDGES_V3 ++ (rebuild .summaries .summaries_new SUMMARIES_V3 ++ (FTS_V3 ++ FTS_TRIGGERS_V3 ++ INDEXES_V3))))) from rfl]
  refine commits_then (fun _ => commits_execute_batch) fun _ => commits_then (fun _ => commits_execute_batch) fun _ =>
    commits_then (fun _ => commits_execute_batch) fun _ => commits_then (fun _ => commits_execute_batch) fun _ =>
    commits_then (fun _ => commits_execute_batch) fun _ => commits_then (fun _ => ?_) fun _ => commits_execute_batch
  exact commits_then (fun _ => commits_execute_batch) fun _ => commits_execute_batch

theorem commits_migrate_v3_to_v4 : Commits (migrate_v3_to_v4 env) db () db' ↔
    db.run env (FACT_COLUMNS_V4 ++ ([.update_column .facts .importance_score .importance] ++ (EVENT_COLUMNS_V4 ++ INDEXES_V4))) = some db' :=
  commits_then (fun _ => commits_execute_batch) fun _ => commits_then (fun _ => commits_execute_run) fun _ =>
    commits_then (fun _ => commits_execute_batch) fun _ => commits_execute_batch

end scripts

/-- The table of the configuration in a catalog, which nothing refers to and no trigger is on. -/
structure Configured (k : Catalog) : Prop where
  columns : k.columns .config = [{ name := .key, type := .TEXT, primary_key := true },required .TEXT .value]
  key : k.key .config = [.key]
  unindexed : ∀ i, ∀ d ∈ k.indexes i, d.table ≠ .config
  quiet : ∀ event, k.fired event .config = []
  unreferenced : k.referring .config = []

/-- The value under a key. -/
def stored (rows : List (ColumnName → Cell)) (key : String) : Option Cell := (rows.find? fun r => r .key = .text key).map fun r => r .value

/-- `get_config` reads a value, or none. -/
def Reads (db : Database) (key : String) (value : Option String) : Prop := stored (db.rows .config) key = value.map Cell.text

theorem Reads.unique {db : Database} {key : String} {value value' : Option String} (first : Reads db key value) (second : Reads db key value') : value = value' :=
  Option.map_injective (fun _ _ => Cell.text.inj) (first.symm.trans second)

/-- The rows after an upsert of a value. -/
def put (key value : String) (rows : List (ColumnName → Cell)) : List (ColumnName → Cell) :=
  if rows.any fun r => r .key = .text key then rows.map fun r => if r .key = .text key then Function.update r .value (.text value) else r
  else rows ++ [fun c => ([(ColumnName.key,Cell.text key),(.value,.text value)].lookup c).getD .null]

section rows
variable {rows : List (ColumnName → Cell)} {key other value : String}

theorem find_map (change : (ColumnName → Cell) → ColumnName → Cell) (kept : ∀ r, change r .key = r .key) :
    (rows.map change).find? (fun r => r .key = .text other) = (rows.find? fun r => r .key = .text other).map change := by
  rw [List.find?_map]
  congr 2
  funext r
  exact congrArg (fun c => decide (c = Cell.text other)) (kept r)

theorem stored_put : stored (put key value rows) key = some (.text value) := by
  unfold put
  split
  · rename_i listed
    obtain ⟨r,member,same⟩ := List.any_eq_true.mp listed
    rw [stored,find_map _ fun r => by split <;> simp]
    cases found : rows.find? fun r => r .key = .text key with
    | none => exact absurd same (List.find?_eq_none.mp found r member)
    | some r =>
      have named := List.find?_some found
      simp [of_decide_eq_true named]
  · rename_i listed
    rw [stored,List.find?_append,List.find?_eq_none.mpr]
    · simp [List.lookup_cons]
      rfl
    · intro r member named
      exact listed (List.any_eq_true.mpr ⟨r,member,named⟩)

theorem stored_put_ne (apart : other ≠ key) : stored (put key value rows) other = stored rows other := by
  unfold put
  split
  · rw [stored,find_map _ fun r => by split <;> simp,stored,Option.map_map]
    cases found : rows.find? fun r => r .key = .text other with
    | none => rfl
    | some r =>
      have named := List.find?_some found
      simp [of_decide_eq_true named,apart]
  · rw [stored,stored,List.find?_append]
    cases rows.find? fun r => r .key = .text other with
    | none => simp [List.lookup_cons,Ne.symm apart]
    | some r => rfl

theorem stored_filter (apart : other ≠ key) : stored (rows.filter fun r => r .key ≠ .text key) other = stored rows other := by
  rw [stored,stored,List.find?_filter]
  congr 2
  funext r
  by_cases named : r .key = .text other
  · simp [named,apart]
  · simp [named]

theorem stored_filter_self : stored (rows.filter fun r => r .key ≠ .text key) key = none := by
  rw [stored,Option.map_eq_none_iff,List.find?_eq_none]
  intro r member
  simpa using (List.mem_filter.mp member).2

theorem mem_put_of_ne {r : ColumnName → Cell} (listed : r ∈ rows) (apart : r .key ≠ .text key) : r ∈ put key value rows := by
  unfold put
  split
  · exact List.mem_map.mpr ⟨r,listed,if_neg apart⟩
  · exact List.mem_append_left _ listed

/-- A row after an upsert was there before, or has the new value. -/
theorem value_of_mem_put {r : ColumnName → Cell} (listed : r ∈ put key value rows) : r ∈ rows ∨ r .value = .text value := by
  unfold put at listed
  split at listed
  · obtain ⟨old,member,rfl⟩ := List.mem_map.mp listed
    split
    · exact .inr (Function.update_self ..)
    · exact .inl member
  · rcases List.mem_append.mp listed with old | new
    · exact .inl old
    · cases List.mem_singleton.mp new
      exact .inr rfl

end rows

section config
variable {env : Env Cell} {db : Database} {key value : String}

theorem Configured.names (configured : Configured db.catalog) : db.catalog.names .config = [.key,.value] := by
  rw [Catalog.names,configured.columns]
  rfl

theorem run_get_config : (get_config key).run db = if .value ∈ db.catalog.names .config then
    match (db.rows .config).find? fun r => r .key = .text key with
    | none => .ok (none,db)
    | some r =>
      match r .value with
      | .text value => .ok (some value,db)
      | _ => .error (.Storage "invalid column type")
  else .error (.Storage "no such table: config") := rfl

theorem commits_get_config (configured : Configured db.catalog) {read : Option String} : Commits (get_config key) db read db ↔ Reads db key read := by
  rw [Commits,run_get_config,if_pos (by rw [configured.names]; decide),Reads,stored]
  cases (db.rows .config).find? fun r => r .key = .text key with
  | none => cases read <;> simp
  | some r =>
    cases has : r .value <;> cases read <;> simp [has]

theorem Configured.blank (configured : Configured db.catalog) (c : ColumnName) : db.catalog.blank env .config c = .null := by
  rw [Catalog.blank,configured.columns]
  cases found : List.find? (fun column => decide (column.name = c)) [{ name := .key, type := .TEXT, primary_key := true },required .TEXT .value] with
  | none => rfl
  | some column =>
    rcases List.mem_pair.mp (List.mem_of_find?_eq_some found) with rfl | rfl
    · rfl
    · rfl

theorem commits_set_config (configured : Configured db.catalog) :
    Commits (set_config env key value) db () (db.with_rows .config (put key value (db.rows .config))) := by
  have shape : (Relational.Statement.upsert .config .key .value (.text key) (.text value) : Statement).shape env.foreign_keys db.catalog = some db.catalog := by
    rw [Statement.shape,configured.names]
    exact if_pos (by decide)
  have columns : ∀ c ∈ db.catalog.columns .config, c.references = none ∧ ∀ v, v ≠ null → c.Admits env.valid v := by
    rw [configured.columns]
    intro c listed
    rcases List.mem_pair.mp listed with rfl | rfl
    · exact ⟨rfl,fun v has => ⟨fun _ => has,fun check none_here => by cases none_here⟩⟩
    · exact ⟨rfl,fun v has => ⟨fun _ => has,fun check none_here => by cases none_here⟩⟩
  have refers : ∀ c ∈ db.catalog.columns .config, ∀ (d : Database) v, c.Refers d.rows v := by
    intro c listed d v ref has
    rw [(columns c listed).1] at has
    cases has
  refine commits_execute.mpr (exec_eq_some (d := db.with_rows .config (put key value (db.rows .config))) shape ?_)
  rw [Database.write]
  unfold put
  split
  · rw [Database.update_rows,if_pos]
    · refine (foldlM_fire_quiet (db.with_rows .config _) (configured.quiet .update) _ _).trans (congrArg (some <| db.with_rows .config ·) ?_)
      simp
    · intro r _ c listed _
      exact ⟨(columns c listed).2 _ (by simp [null]),fun _ => refers c listed db _⟩
  · rename_i unlisted
    have fresh : db.filled env .config [(.key,.text key),(.value,.text value)] = fun c => ([(ColumnName.key,Cell.text key),(.value,.text value)].lookup c).getD .null := by
      funext c
      rw [Database.filled,configured.blank]
    rw [← fresh]
    refine insert_row_quiet _ (configured.quiet .insert) ?_ ?_ fun _ c listed => refers c listed _ _
    · intro c listed
      refine (columns c listed).2 _ ?_
      rw [configured.columns] at listed
      rcases List.mem_pair.mp listed with rfl | rfl
      · rw [filled_lookup rfl]
        simp [null]
      · rw [filled_lookup rfl]
        simp [null]
    · intro r member
      refine Bool.or_eq_false_iff.mpr ⟨?_,List.any_eq_false.mpr fun i _ => ?_⟩
      · rw [configured.key,same_key]
        have other : r .key ≠ .text key := fun same => unlisted (List.any_eq_true.mpr ⟨r,member,decide_eq_true same⟩)
        simp [filled_lookup (show [(ColumnName.key,Cell.text key),(.value,.text value)].lookup .key = some (.text key) from rfl),other]
      · cases found : db.catalog.indexes i with
        | none => simp
        | some d => simp [configured.unindexed i d found]

theorem commits_delete (configured : Configured db.catalog) :
    Commits (execute env (.delete_where .config .key (.text key))) db () (db.with_rows .config ((db.rows .config).filter fun r => r .key ≠ .text key)) := by
  refine commits_execute.mpr ?_
  have written : db.write env (.delete_where .config .key (.text key)) =
      some (db.with_rows .config ((db.rows .config).filter fun r => r .key ≠ .text key)) := by
    have free : ((db.rows .config).filter fun r => r .key = .text key).any (db.referenced .config) = false := by
      rw [List.any_eq_false]
      intro r _
      simp [Database.referenced,configured.unreferenced]
    rw [Database.write]
    simp only [free]
    rw [if_neg (by simp)]
    exact foldlM_fire_quiet (db.with_rows .config _) (configured.quiet .delete) (fun r => r) _
  refine exec_eq_some (d := db.with_rows .config ((db.rows .config).filter fun r => r .key ≠ .text key)) ?_ written
  rw [Statement.shape,configured.names]
  exact if_pos (by decide)

end config
end MemoryEngine.Schema
