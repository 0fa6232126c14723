import MemoryEngine.Upgrades

/-! Several processes open one file at the same time. Each reads the version once and then runs
its steps, a transaction each, whatever the version is by then. -/

namespace MemoryEngine.Schema
open Relational Transaction Sessions

/-! ### What a step does to any database -/

section catalogs
variable {host : Host} {env : Env Cell} {db db' m : Database} {target v : Nat}

/-- The statements that only write rows. -/
def writes : Statement → Bool
  | .insert _ _ _ | .upsert _ _ _ _ _ | .insert_select _ _ _ | .index_select _ _ _ _ | .update_column _ _ _ | .delete_where _ _ _ => true
  | _ => false

theorem shape_of_writes {s : Statement} {foreign_keys : Bool} {k k' : Catalog} (plain : writes s = true) (shape : s.shape foreign_keys k = some k') :
    k' = k := by
  cases s <;> unfold Relational.Statement.shape at shape <;> grind [writes]

theorem commits_get_config_state {key : String} {read : Option String} (committed : Commits (get_config key) db read db') : db' = db := by
  rw [Commits,run_get_config] at committed
  split at committed
  · split at committed
    · cases committed
      rfl
    · split at committed
      · cases committed
        rfl
      · cases committed
  · cases committed

/-- The definitions of a step are all that it does to the catalog. -/
theorem shapes_of_script {migration : Migration} (found : (MIGRATIONS host)[v - 1]? = some migration) (low : 1 ≤ v)
    (enforces : env.foreign_keys = enforced (v + 1)) (committed : Commits (migration.run env) db () db') :
    shapes (enforced (v + 1)) (definitions (v + 1)) db.catalog = some db'.catalog := by
  rw [← enforces]
  by_cases listed : v ∈ plain
  · exact shapes_of_run (((commits_plain listed found).1 env db db').mp committed)
  rcases found_bound found low listed with rfl | rfl | rfl | rfl <;> cases found
  · exact shapes_of_run (commits_migrate_v2_to_v3.mp committed)
  · have shape := shapes_of_run (commits_migrate_v3_to_v4.mp committed)
    rw [shapes_append] at shape
    obtain ⟨k₁,first,shape⟩ := Option.bind_eq_some_iff.mp shape
    rw [shapes_append] at shape
    obtain ⟨k₂,updated,rest⟩ := Option.bind_eq_some_iff.mp shape
    obtain ⟨k₃,update,last⟩ := Option.bind_eq_some_iff.mp updated
    cases last
    cases shape_of_writes rfl update
    rw [show definitions 4 = FACT_COLUMNS_V4 ++ (EVENT_COLUMNS_V4 ++ INDEXES_V4) from rfl,shapes_append,first]
    exact rest
  · have shape := shapes_of_run (commits_execute_batch.mp committed)
    obtain ⟨k,deleted,last⟩ := Option.bind_eq_some_iff.mp shape
    cases last
    rw [← shape_of_writes rfl deleted]
    rfl
  · obtain ⟨_,m₁,defined,rest⟩ := commits_bind.mp committed
    have shape := shapes_of_run (commits_execute_batch.mp defined)
    obtain ⟨read,m₂,looked,rest⟩ := commits_bind.mp rest
    cases commits_get_config_state looked
    cases read with
    | none =>
      obtain ⟨_,rfl⟩ := commits_pure.mp rest
      exact shape
    | some raw =>
      obtain ⟨fp,m₃,decoded,converting⟩ := commits_bind.mp rest
      obtain ⟨values,m₄,converted,inserting⟩ := commits_bind.mp converting
      obtain ⟨_,m₅,inserted,deleting⟩ := commits_bind.mp inserting
      obtain ⟨_,rfl⟩ := commits_lift.mp decoded
      obtain ⟨_,rfl⟩ := commits_lift.mp converted
      obtain ⟨k,deleted,last⟩ := Option.bind_eq_some_iff.mp (shapes_of_run (commits_execute_batch.mp deleting))
      cases last
      rw [shape_of_writes rfl deleted,shape_of_writes rfl (shape_of_exec (commits_execute.mp inserted))]
      exact shape

/-- A step to a version from that version or the one before it leads to a schema of it. -/
theorem schema_again : ∀ v < 14, ∀ k ∈ schemas (v + 1), ∀ k' ∈ shapes (enforced (v + 1)) (definitions (v + 1)) k, ∃ k'' ∈ schemas (v + 1), Same k' k'' := by
  decide +kernel

/-- Whatever schema a step runs on, it leaves the configuration its table. -/
theorem configured_after : ∀ v < 14, ∀ j < 15, v ≤ j → ∀ k ∈ schemas j, ∀ k' ∈ shapes (enforced (v + 1)) (definitions (v + 1)) k, Configured k' := by
  decide +kernel

/-- Some steps add a column that a later schema has already. -/
def adding : List Nat := [1,3,4,5]

theorem stuck_adding : ∀ v ∈ adding, ∀ j < 15, v < j → ∀ k ∈ schemas j, shapes (enforced (v + 1)) (definitions (v + 1)) k = none := by decide +kernel

/-- What a committed step leaves. -/
theorem stamped_of_transaction {migration : Migration} (found : (MIGRATIONS host)[v - 1]? = some migration) (low : 1 ≤ v)
    (enforces : env.foreign_keys = enforced (v + 1)) (committed : Commits (migration.transaction (v + 1) env) db () db') :
    ∃ m, Commits (migration.run env) db () m ∧ shapes (enforced (v + 1)) (definitions (v + 1)) db.catalog = some m.catalog ∧
      (Configured m.catalog → db' = stamped (v + 1) m) := by
  obtain ⟨_,m,script,rest⟩ := commits_bind.mp committed
  refine ⟨m,script,shapes_of_script found low enforces script,fun configured => ?_⟩
  have expected : Commits (set_config env "schema_version" (toString (v + 1))) m () _ := commits_set_config configured
  cases fk : migration.disable_fk with
  | false =>
    rw [fk] at rest
    exact (expected.functional rest).2
  | true =>
    rw [fk] at rest
    obtain ⟨_,m',checked,last⟩ := commits_bind.mp rest
    have unfolded : check_foreign_keys.run m = if m.ForeignKeys then .ok ((),m) else .error (.Migration "foreign key violations detected after table rebuild") := rfl
    rw [Commits,unfolded] at checked
    split at checked
    · cases checked
      exact (expected.functional last).2
    · cases checked

theorem enforced_of_found {migration : Migration} (found : (MIGRATIONS host)[v - 1]? = some migration) (low : 1 ≤ v) :
    (!migration.disable_fk) = enforced (v + 1) := by
  by_cases listed : v ∈ plain
  · rw [(commits_plain listed found).2,Bool.not_not]
  rcases found_bound found low listed with rfl | rfl | rfl | rfl <;> cases found <;> rfl

/-- The last step finds everything there. -/
theorem run_vectors_again (schema : db.catalog = current) : db.run env VECTORS_V14 = some db := by
  have present : (current.tables .fact_vectors).isSome = true ∧ (current.indexes .idx_fact_vectors_space).isSome = true := by decide +kernel
  rw [← schema] at present
  rw [VECTORS_V14,run_cons,exec_create_table_again present.1,Option.bind_some,run_cons]
  exact congrArg (Option.bind · _) (exec_create_index_again present.2)

end catalogs

/-! ### Processes -/

/-- Where a process is that opens the file. -/
inductive Phase where
  | start
  | gated (version : Nat)
  | stepping (target : Nat) (epoch : Option String)
  | stamping (epoch : Option String)
  | serving
  | failed

/-- The step to a version, or the end of the steps. -/
def step_turn (host : Host) (path : String) (target : Nat) (epoch : Option String) : Script Phase :=
  match (MIGRATIONS host)[target - 2]? with
  | some m => do
    m.transaction target (host.env ⟨path,!m.disable_fk⟩)
    return .stepping (target + 1) epoch
  | none => return .stamping epoch

/-- The next transaction of a process that is opening the file. -/
def Phase.turn (host : Host) (path : String) : Phase → Script Phase
  | .start => do
    let version ← stored_version
    return .gated version
  | .gated version => do
    let epoch ← supported_epoch
    if version > CURRENT_SCHEMA_VERSION then throw (newer_version version)
    else return if version = CURRENT_SCHEMA_VERSION then .stamping epoch else .stepping (max 2 (version + 1)) epoch
  | .stepping target epoch => step_turn host path target epoch
  | .stamping epoch => do
    if epoch.isNone then set_config (host.env ⟨path,true⟩) "storage_epoch" (toString STORAGE_EPOCH)
    return .serving
  | .serving => return .serving
  | .failed => return .failed

structure World (P : Type) where
  phase : P → Phase
  db : Database

section worlds
variable {P : Type} (host : Host) (path : String)

/-- The version that a process reads. -/
def AtVersion (db : Database) (k : Nat) : Prop := Commits stored_version db k db

/-- The stored version is no later than the one that the process steps to, or the step adds a
    column that is there by then. -/
def Timely (phase : Phase) (db : Database) : Prop :=
  ∀ target epoch k, phase = .stepping target epoch → AtVersion db k → k ≤ target ∨ target - 1 ∈ adding

/-- Where a process can be while the database is of a version. -/
def Phase.Behind (k : Nat) : Phase → Prop
  | .gated version => 1 ≤ version ∧ version ≤ k
  | .stepping target _ => 2 ≤ target ∧ target ≤ k + 1
  | .stamping _ => k = 14
  | .serving => k = 14
  | _ => True

structure Orderly (k : Nat) (w : World P) : Prop where
  known : 1 ≤ k ∧ k ≤ 14
  schema : w.db.catalog ∈ schemas k
  version : AtVersion w.db k
  behind : ∀ p, (w.phase p).Behind k

variable {host path} {w w' : World P} {k : Nat} {p : P} {next : Phase} {db : Database}

theorem Orderly.configured (orderly : Orderly k w) : Configured w.db.catalog :=
  (usual_of_schema k (Nat.lt_succ_of_le orderly.known.2) _ orderly.schema).configured

theorem Phase.Behind.later {phase : Phase} {j : Nat} (behind : phase.Behind k) (later : k ≤ j) (bound : j ≤ 14) : phase.Behind j := by
  cases phase with
  | gated version => exact ⟨behind.1,behind.2.trans later⟩
  | stepping target epoch => exact ⟨behind.1,behind.2.trans (by omega)⟩
  | stamping epoch => exact Nat.le_antisymm bound (behind ▸ later)
  | serving => exact Nat.le_antisymm bound (behind ▸ later)
  | start => trivial
  | failed => trivial

theorem commits_supported_epoch_state {read : Option String} {m : Database} (committed : Commits supported_epoch db read m) : m = db := by
  obtain ⟨_,m',looked,rest⟩ := commits_bind.mp committed
  cases commits_get_config_state looked
  dsimp only at rest
  split at rest
  · split at rest
    · cases rest
    · exact (commits_pure.mp rest).2
  · cases rest

/-- What a turn of a process can do. -/
theorem Orderly.turn_cases (orderly : Orderly k w) (committed : Commits ((w.phase p).turn host path) w.db next db) :
    (db = w.db ∧ next.Behind k ∧ ∀ target epoch, w.phase p = .stepping target epoch → k ≤ target) ∨
    w.phase p = .stamping none ∧ db = with_epoch w.db ∧ next = .serving ∨
    ∃ v epoch m migration, w.phase p = .stepping (v + 1) epoch ∧ 1 ≤ v ∧ v < 14 ∧ next = .stepping (v + 2) epoch ∧
      (MIGRATIONS host)[v - 1]? = some migration ∧ Commits (migration.run (host.env ⟨path,!migration.disable_fk⟩)) w.db () m ∧
      shapes (enforced (v + 1)) (definitions (v + 1)) w.db.catalog = some m.catalog ∧ db = stamped (v + 1) m := by
  have behind := orderly.behind p
  have known := orderly.known
  cases phase : w.phase p with
  | start =>
    rw [phase] at committed
    obtain ⟨version,m,read,last⟩ := commits_bind.mp committed
    obtain ⟨rfl,rfl⟩ := Commits.functional orderly.version read
    obtain ⟨rfl,rfl⟩ := commits_pure.mp last
    exact .inl ⟨rfl,⟨orderly.known.1,le_rfl⟩,fun _ _ other => by cases other⟩
  | gated version =>
    rw [phase] at committed behind
    obtain ⟨epoch,m,read,last⟩ := commits_bind.mp committed
    cases commits_supported_epoch_state read
    split at last
    · cases last
    · obtain ⟨rfl,rfl⟩ := commits_pure.mp last
      refine .inl ⟨rfl,?_,fun _ _ other => by cases other⟩
      obtain ⟨low,high⟩ := behind
      split
      · rename_i latest
        change k = 14
        change version = 14 at latest
        omega
      · exact ⟨le_max_left 2 (version + 1),max_le (by omega) (Nat.succ_le_succ high)⟩
  | stepping target epoch =>
    rw [phase] at committed behind
    obtain ⟨low,high⟩ := behind
    change Commits (step_turn host path target epoch) w.db next db at committed
    unfold step_turn at committed
    split at committed
    · rename_i migration found
      obtain ⟨_,m,stepped,last⟩ := commits_bind.mp committed
      obtain ⟨rfl,rfl⟩ := commits_pure.mp last
      have inside : target - 2 < 13 := (List.getElem?_eq_some_iff.mp found).1
      obtain ⟨v,rfl⟩ : ∃ v, target = v + 1 := ⟨target - 1,by omega⟩
      have low' : 1 ≤ v := by omega
      have enforces : (host.env ⟨path,!migration.disable_fk⟩).foreign_keys = enforced (v + 1) := enforced_of_found found low'
      obtain ⟨m,script,shape,stamps⟩ := stamped_of_transaction found low' enforces stepped
      have configured := configured_after v (by omega) k (by omega) (by omega) _ orderly.schema _ shape
      exact .inr (.inr ⟨v,epoch,m,migration,rfl,low',by omega,rfl,found,script,shape,stamps configured⟩)
    · rename_i absent
      obtain ⟨rfl,rfl⟩ := commits_pure.mp committed
      have outside : 13 ≤ target - 2 := List.getElem?_eq_none_iff.mp absent
      refine .inl ⟨rfl,?_,fun target' epoch' same => ?_⟩
      · change k = 14
        omega
      · cases same
        omega
  | stamping epoch =>
    rw [phase] at committed behind
    cases epoch with
    | none =>
      obtain ⟨_,m,stamped,last⟩ := commits_bind.mp committed
      obtain ⟨rfl,rfl⟩ := commits_pure.mp last
      exact .inr (.inl ⟨rfl,((commits_set_config orderly.configured).functional stamped).2,rfl⟩)
    | some e =>
      obtain ⟨rfl,rfl⟩ := commits_pure.mp committed
      exact .inl ⟨rfl,behind,fun _ _ other => by cases other⟩
  | serving =>
    rw [phase] at committed behind
    obtain ⟨rfl,rfl⟩ := commits_pure.mp committed
    exact .inl ⟨rfl,behind,fun _ _ other => by cases other⟩
  | failed =>
    rw [phase] at committed
    obtain ⟨rfl,rfl⟩ := commits_pure.mp committed
    exact .inl ⟨rfl,trivial,fun _ _ other => by cases other⟩

theorem Orderly.next_version {v : Nat} {m : Database} (orderly : Orderly k w) (bound : v < 14) (behind : v ≤ k)
    (shape : shapes (enforced (v + 1)) (definitions (v + 1)) w.db.catalog = some m.catalog) : AtVersion (stamped (v + 1) m) (v + 1) := by
  have configured : Configured (stamped (v + 1) m).catalog := configured_after v bound k (Nat.lt_succ_of_le orderly.known.2) behind _ orderly.schema _ shape
  exact commits_stored_version configured reads_stamped (parse_version (v + 1) (by omega))

theorem Orderly.version_with_epoch (orderly : Orderly k w) : AtVersion (with_epoch w.db) k := by
  obtain ⟨read,m,looked,rest⟩ := commits_bind.mp orderly.version
  cases commits_get_config_state looked
  have reads := (commits_get_config orderly.configured).mp looked
  have configured : Configured (with_epoch w.db).catalog := orderly.configured
  refine commits_bind.mpr ⟨read,with_epoch w.db,(commits_get_config configured).mpr ((stored_with_epoch (by decide)).trans reads),?_⟩
  dsimp only at rest ⊢
  split at rest
  · obtain ⟨rfl,_⟩ := commits_pure.mp rest
    exact commits_pure.mpr ⟨rfl,rfl⟩
  · cases rest

/-- Nothing but the version and the epoch is written. -/
structure Untouched (db db' : Database) : Prop where
  catalog : db'.catalog = db.catalog
  rows : ∀ t, t ≠ .config → db'.rows t = db.rows t
  config : ∀ r ∈ db.rows .config, r .key ≠ .text "schema_version" → r .key ≠ .text "storage_epoch" → r ∈ db'.rows .config

/-- While a process serves, a timely turn of another one writes nothing else. -/
theorem Orderly.untouched (orderly : Orderly k w) (timely : Timely (w.phase p) w.db) (committed : Commits ((w.phase p).turn host path) w.db next db)
    {q : P} (serving : w.phase q = .serving) : Untouched w.db db := by
  have latest : k = 14 := by
    have behind := orderly.behind q
    rw [serving] at behind
    exact behind
  subst latest
  rcases orderly.turn_cases committed with ⟨rfl,_,_⟩ | ⟨phase,rfl,rfl⟩ | ⟨v,epoch,m,migration,phase,low,high,rfl,found,script,shape,rfl⟩
  · exact ⟨rfl,fun _ _ => rfl,fun _ listed _ _ => listed⟩
  · refine ⟨rfl,fun t other => w.db.with_rows_ne .config _ other,fun r listed _ other => ?_⟩
    rw [with_epoch,w.db.with_rows_self]
    exact mem_put_of_ne listed other
  · have last : v = 13 := by
      rcases timely (v + 1) epoch 14 phase orderly.version with early | adds
      · omega
      · have stuck := stuck_adding v adds 14 (by decide) high _ orderly.schema
        rw [stuck] at shape
        cases shape
    subst last
    cases found
    have ran := commits_execute_batch.mp script
    rw [run_vectors_again (current_of_schema orderly.schema)] at ran
    cases ran
    refine ⟨rfl,fun t other => w.db.with_rows_ne .config _ other,fun r listed other _ => ?_⟩
    rw [stamped,w.db.with_rows_self]
    exact mem_put_of_ne listed other

end worlds

section runs
variable {P : Type} [DecidableEq P] {host : Host} {path : String}

/-- One process takes its turn, or fails, or writes what it wants once it serves. -/
inductive Step (host : Host) (path : String) (allowed : Phase → Database → Prop) : World P → World P → Prop
  | turn (w : World P) (p : P) (next : Phase) (db : Database) (permitted : allowed (w.phase p) w.db)
      (committed : Commits ((w.phase p).turn host path) w.db next db) : Step host path allowed w ⟨Function.update w.phase p next,db⟩
  | fail (w : World P) (p : P) : Step host path allowed w ⟨Function.update w.phase p .failed,w.db⟩
  | write (w : World P) (p : P) (db : Database) (serving : w.phase p = .serving) (catalog : db.catalog = w.db.catalog)
      (version : ∀ k, AtVersion w.db k → AtVersion db k) : Step host path allowed w ⟨w.phase,db⟩

variable {w w' : World P} {k : Nat} {p : P} {next : Phase} {db : Database}

theorem Orderly.update (orderly : Orderly k w) {j : Nat} (later : k ≤ j) (known : 1 ≤ j ∧ j ≤ 14) (schema : db.catalog ∈ schemas j) (version : AtVersion db j)
    (behind : next.Behind j) : Orderly j (⟨Function.update w.phase p next,db⟩ : World P) where
  known
  schema
  version
  behind q := by
    by_cases same : q = p
    · subst same
      change (Function.update w.phase q next q).Behind j
      rw [Function.update_self]
      exact behind
    · change (Function.update w.phase p next q).Behind j
      rw [Function.update_of_ne same]
      exact (orderly.behind q).later later known.2

/-- A turn that is timely leads to no earlier version. -/
theorem Orderly.turn (orderly : Orderly k w) (timely : Timely (w.phase p) w.db) (committed : Commits ((w.phase p).turn host path) w.db next db) :
    ∃ j, k ≤ j ∧ Orderly j (⟨Function.update w.phase p next,db⟩ : World P) := by
  have behind := orderly.behind p
  rcases orderly.turn_cases committed with ⟨rfl,behind',_⟩ | ⟨phase,rfl,rfl⟩ | ⟨v,epoch,m,_,phase,low,high,rfl,_,_,shape,rfl⟩
  · exact ⟨k,le_rfl,orderly.update le_rfl orderly.known orderly.schema orderly.version behind'⟩
  · rw [phase] at behind
    exact ⟨k,le_rfl,orderly.update le_rfl orderly.known orderly.schema orderly.version_with_epoch behind⟩
  · rw [phase] at behind
    have from_v : v ≤ k := Nat.le_of_succ_le_succ behind.2
    have to_next : k ≤ v + 1 := by
      rcases timely (v + 1) epoch k phase orderly.version with early | adds
      · exact early
      · by_contra late
        have stuck := stuck_adding v adds k (Nat.lt_succ_of_le orderly.known.2) (by omega) _ orderly.schema
        rw [stuck] at shape
        cases shape
    refine ⟨v + 1,to_next,orderly.update to_next ⟨by omega,by omega⟩ ?_ (orderly.next_version high from_v shape) ⟨by omega,le_rfl⟩⟩
    by_cases same : k = v
    · subst same
      exact schema_of_shapes orderly.schema shape
    · have again : k = v + 1 := by omega
      subst again
      obtain ⟨k'',listed,equal⟩ := schema_again v high _ orderly.schema _ shape
      exact equal.eq ▸ listed

/-- Every process is about to open the file. -/
def World.opening (P : Type) (db : Database) : World P := ⟨fun _ => .start,db⟩

end runs

/-! ### One process -/

section alone
variable {host : Host} {path : String} {db m : Database} {fault : Nat → Option MemoryError} {backup_dir : Option String} {c c' : Connection}

/-- A turn that no other process comes between. -/
def Turn (host : Host) (path : String) (a b : Phase × Database) : Prop := Commits (a.1.turn host path) a.2 b.1 b.2

theorem commits_stored_version_state {version : Nat} (committed : Commits stored_version db version m) : m = db := by
  obtain ⟨_,m',looked,rest⟩ := commits_bind.mp committed
  cases commits_get_config_state looked
  dsimp only at rest
  split at rest
  · exact (commits_pure.mp rest).2
  · cases rest

/-- The value of a read that succeeds. -/
theorem commits_of_read {α : Type} {x : Script α} {a : α} (state : ∀ a m, Commits x c.state a m → m = c.state)
    (ended : Ends (Sessions.read x : Session α) c (.ok a) c') : Commits x c.state a c.state ∧ c' = c := by
  obtain ⟨result,same⟩ := ends_read.mp ended
  cases ran : x.run c.state with
  | error e =>
    rw [ran] at result
    cases result
  | ok value =>
    obtain ⟨a',m⟩ := value
    rw [ran] at result
    cases result
    have committed : Commits x c.state a' m := ran
    exact ⟨state a' m committed ▸ committed,same⟩

/-- Each step is a turn. -/
theorem turns_of_run {version target : Nat} (epoch : Option String) {list : List Migration} (rest : (MIGRATIONS host).drop (target - 2) = list)
    (second : 2 ≤ target) (settings : c.settings = ⟨path,true⟩) (ended : Ends (run_migrations host fault version list target) c (.ok ()) c') :
    Relation.ReflTransGen (Turn host path) (.stepping (max target (version + 1)) epoch,c.state) (.stamping epoch,c'.state) ∧ c'.settings = ⟨path,true⟩ := by
  induction list generalizing target c with
  | nil =>
    obtain ⟨_,rfl⟩ := ends_pure.mp ended
    have length : 13 ≤ target - 2 := List.drop_eq_nil_iff.mp rest
    have none_left : (MIGRATIONS host)[max target (version + 1) - 2]? = none := List.getElem?_eq_none (by change 13 ≤ _; omega)
    refine ⟨.single ?_,settings⟩
    change Commits (step_turn host path (max target (version + 1)) epoch) c'.state (.stamping epoch) c'.state
    unfold step_turn
    rw [none_left]
    exact commits_pure.mpr ⟨rfl,rfl⟩
  | cons migration rest' ih =>
    obtain ⟨found,rest''⟩ := migrations_cons rest second
    by_cases due : version < target
    · rw [run_migrations,if_pos due] at ended
      rcases ends_bind.mp ended with ⟨_,c₁,stepped,later⟩ | ⟨e,_,failed⟩
      · rcases ends_migrate_step (by rw [settings]) stepped with ⟨t,_,committed,same⟩ | ⟨e,failed,_⟩
        · have settings₁ : c₁.settings = ⟨path,true⟩ := same ▸ settings
          have state₁ : c₁.state = t := same ▸ rfl
          obtain ⟨turns,last⟩ := ih rest'' (by omega) settings₁ later
          rw [Nat.max_eq_left (show version + 1 ≤ target from due)]
          rw [Nat.max_eq_left (show version + 1 ≤ target + 1 by omega),state₁] at turns
          refine ⟨.head ?_ turns,last⟩
          change Commits (step_turn host path target epoch) c.state (.stepping (target + 1) epoch) t
          unfold step_turn
          rw [found]
          rw [settings] at committed
          exact commits_bind.mpr ⟨(),t,committed,commits_pure.mpr ⟨rfl,rfl⟩⟩
        · cases failed
      · cases failed
    · rw [run_migrations,if_neg due] at ended
      have same : max target (version + 1) = max (target + 1) (version + 1) := by omega
      rw [same]
      exact ih rest'' (by omega) settings ended

/-- A migration that succeeds is a run of turns. -/
theorem turns_of_migrate (ended : Ends (migrate host fault backup_dir) (open_connection path db) (.ok ()) c') :
    Relation.ReflTransGen (Turn host path) (.start,db) (.serving,c'.state) := by
  rcases ends_bind.mp ended with ⟨version,_,first,ended⟩ | ⟨e,_,failed⟩
  · obtain ⟨version_read,rfl⟩ := commits_of_read (fun _ _ committed => commits_stored_version_state committed) first
    rcases ends_bind.mp ended with ⟨epoch,_,second,ended⟩ | ⟨e,_,failed⟩
    · obtain ⟨epoch_read,rfl⟩ := commits_of_read (fun _ _ committed => commits_supported_epoch_state committed) second
      have started : Turn host path (.start,db) (.gated version,db) := commits_bind.mpr ⟨version,db,version_read,commits_pure.mpr ⟨rfl,rfl⟩⟩
      have stamps : ∀ {c}, c.settings = ⟨path,true⟩ → Ends (stamp_epoch host fault epoch) c (.ok ()) c' →
          Turn host path (.stamping epoch,c.state) (.serving,c'.state) := by
        intro c settings stamped
        cases epoch with
        | some e =>
          obtain ⟨_,rfl⟩ := ends_pure.mp stamped
          exact commits_pure.mpr ⟨rfl,rfl⟩
        | none =>
          have transacted : Ends (autocommit host fault fun env => set_config env "storage_epoch" (toString STORAGE_EPOCH)) c (.ok ()) c' := stamped
          rcases ends_transact.mp transacted with ⟨_,t,_,committed,_,rfl⟩ | ⟨e,_,failed,_⟩
          · rw [settings] at committed
            exact commits_bind.mpr ⟨(),t,committed,commits_pure.mpr ⟨rfl,rfl⟩⟩
          · cases failed
      by_cases newer : version > CURRENT_SCHEMA_VERSION
      · simp only [if_pos newer] at ended
        cases (ends_throw.mp ended).1
      by_cases latest : version = CURRENT_SCHEMA_VERSION
      · simp only [if_neg newer,if_pos latest] at ended
        have gated : Turn host path (.gated version,db) (.stamping epoch,db) := by
          refine commits_bind.mpr ⟨epoch,db,epoch_read,?_⟩
          rw [if_neg newer,if_pos latest]
          exact commits_pure.mpr ⟨rfl,rfl⟩
        exact .head started (.head gated (.single (stamps rfl ended)))
      · simp only [if_neg newer,if_neg latest] at ended
        have gated : Turn host path (.gated version,db) (.stepping (max 2 (version + 1)) epoch,db) := by
          refine commits_bind.mpr ⟨epoch,db,epoch_read,?_⟩
          rw [if_neg newer,if_neg latest]
          exact commits_pure.mpr ⟨rfl,rfl⟩
        rcases ends_bind.mp ended with ⟨_,_,backed,ended⟩ | ⟨e,_,failed⟩
        · obtain rfl := ends_backups backed
          rcases ends_bind.mp ended with ⟨_,m,ran,stamped⟩ | ⟨e,_,failed⟩
          · obtain ⟨turns,settings⟩ := turns_of_run epoch rfl le_rfl rfl ran
            exact .head started (.head gated (turns.tail (stamps settings stamped)))
          · cases failed
        · cases failed
    · cases failed
  · cases failed

end alone
end MemoryEngine.Schema
