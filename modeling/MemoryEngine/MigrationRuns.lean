import MemoryEngine.SchemaSteps

/-! The steps one after another, each in its transaction, and what is left when one fails. -/

namespace MemoryEngine.Schema
open Relational Transaction Sessions

/-- What the steps from a version on need of a database of that version. -/
structure Sound (host : Host) (v : Nat) (db : Database) : Prop where
  schema : db.catalog ∈ schemas v
  conforms : Conforms host.json_valid current db
  distinct : v ≤ 2 → Distinct db
  synced : v = 3 → Synced db
  legible : v ≤ 12 → Legible host db

/-- A database of a version. Those of version 1 need not say so. -/
structure OfVersion (host : Host) (v : Nat) (db : Database) : Prop extends Sound host v db where
  known : 1 ≤ v ∧ v ≤ CURRENT_SCHEMA_VERSION
  version : Reads db "schema_version" (some (toString v)) ∨ v = 1 ∧ Reads db "schema_version" none
  epoch : ∃ e, Reads db "storage_epoch" e ∧ ∃ n ≤ STORAGE_EPOCH, parse_unsigned (2 ^ 16) (e.getD "1") = some n

/-- What is left of a database as its version goes up. -/
structure Kept (host : Host) (v : Nat) (db : Database) (k : Nat) (db' : Database) : Prop where
  keeps : Keeps apart [] db db'
  config : ∀ r ∈ db.rows .config, r .key ∉ managed → r ∈ db'.rows .config
  identity : k ≤ 12 → stored (db'.rows .config) "embedding_meta" = stored (db.rows .config) "embedding_meta"
  lifted : v ≤ 12 → 13 ≤ k → stored (db'.rows .config) "embedding_meta" = none ∧ ∀ read, Reads db "embedding_meta" read → Lifted host read db'

section steps
variable {host : Host} {env : Env Cell} {db m db' : Database} {v k : Nat}

theorem commits_plain {migration : Migration} (listed : v ∈ plain) (found : (MIGRATIONS host)[v - 1]? = some migration) :
    (∀ env db db', Commits (migration.run env) db () db' ↔ db.run env (definitions (v + 1)) = some db') ∧ migration.disable_fk = !enforced (v + 1) := by
  simp only [plain,List.mem_cons,List.not_mem_nil,or_false] at listed
  rcases listed with rfl | rfl | rfl | rfl | rfl | rfl | rfl | rfl | rfl <;> cases found
  · exact ⟨fun _ _ _ => commits_migrate_v1_to_v2,rfl⟩
  all_goals exact ⟨fun _ _ _ => commits_execute_batch,rfl⟩

theorem found_bound {migration : Migration} (found : (MIGRATIONS host)[v - 1]? = some migration) (low : 1 ≤ v) (other : v ∉ plain) :
    v = 2 ∨ v = 3 ∨ v = 11 ∨ v = 12 := by
  have high : v - 1 < 13 := (List.getElem?_eq_some_iff.mp found).1
  have : ∀ v < 14, 1 ≤ v → v ∉ plain → v = 2 ∨ v = 3 ∨ v = 11 ∨ v = 12 := by decide
  exact this v (by omega) low other

/-- The step from a version commits on every sound database of it. -/
theorem step_commits {migration : Migration} (found : (MIGRATIONS host)[v - 1]? = some migration) (low : 1 ≤ v) (sound : Sound host v db)
    (enforces : env.foreign_keys = !migration.disable_fk) (valid : env.valid = host.json_valid) (now : env.now ≠ null) :
    ∃ db', Commits (migration.run env) db () db' ∧ Stepped host v db db' := by
  obtain ⟨schema,conforms,distinct,synced,legible⟩ := sound
  by_cases listed : v ∈ plain
  · obtain ⟨commits,disables⟩ := commits_plain listed found
    rw [disables,Bool.not_not] at enforces
    obtain ⟨db',ran,stepped⟩ := step_plain listed enforces valid schema conforms
    exact ⟨db',(commits env db db').mpr ran,stepped⟩
  rcases found_bound found low listed with rfl | rfl | rfl | rfl <;> cases found
  · obtain ⟨db',ran,stepped⟩ := step_to_v3 enforces valid schema conforms (distinct (by decide))
    exact ⟨db',commits_migrate_v2_to_v3.mpr ran,stepped⟩
  · obtain ⟨db',ran,stepped⟩ := step_to_v4 enforces valid schema conforms (synced rfl)
    exact ⟨db',commits_migrate_v3_to_v4.mpr ran,stepped⟩
  · obtain ⟨db',ran,stepped⟩ := step_to_v12 schema conforms
    exact ⟨db',commits_execute_batch.mpr ran,stepped⟩
  · exact step_to_v13 enforces valid now schema conforms (legible (by decide))

/-- A conforming database of a schema has what its rows refer to. -/
theorem foreign_keys_of_conforms {valid : Cell → Bool} (conforms : Conforms valid current db) (usual : Usual db.catalog) : db.ForeignKeys := by
  intro t r stored c defined ref has
  obtain ⟨c',required,same,has'⟩ := usual.references t c defined ref has
  have named : c'.name ∈ db.catalog.names t := same ▸ List.mem_map_of_mem defined
  have holds := (conforms t r stored c' required named).2 ref has'
  rw [same] at holds
  exact holds.2

/-- A step with its new version. -/
def stamped (v : Nat) (m : Database) : Database := m.with_rows .config (put "schema_version" (toString v) (m.rows .config))

theorem transaction_commits (env : Env Cell) {migration : Migration} (found : (MIGRATIONS host)[v - 1]? = some migration) (low : 1 ≤ v) (sound : Sound host v db)
    (enforces : env.foreign_keys = !migration.disable_fk) (valid : env.valid = host.json_valid) (now : env.now ≠ null) :
    ∃ m, Commits (migration.transaction (v + 1) env) db () (stamped (v + 1) m) ∧ Stepped host v db m := by
  obtain ⟨m,ran,stepped⟩ := step_commits found low sound enforces valid now
  have high : v - 1 < 13 := (List.getElem?_eq_some_iff.mp found).1
  have usual := usual_of_schema (v + 1) (by omega) _ stepped.schema
  refine ⟨m,commits_bind.mpr ⟨(),m,ran,?_⟩,stepped⟩
  have last : Commits (set_config env "schema_version" (toString (v + 1))) m () _ := commits_set_config usual.configured
  cases migration.disable_fk with
  | false => exact last
  | true =>
    have checked : Commits check_foreign_keys m () m := by
      have unfolded : check_foreign_keys.run m = if m.ForeignKeys then .ok ((),m) else .error (.Migration "foreign key violations detected after table rebuild") := rfl
      rw [Commits,unfolded,if_pos (foreign_keys_of_conforms stepped.conforms usual)]
    exact commits_bind.mpr ⟨(),m,checked,last⟩

theorem stored_stamped {key : String} (other : key ≠ "schema_version") : stored ((stamped v m).rows .config) key = stored (m.rows .config) key := by
  rw [stamped,m.with_rows_self]
  exact stored_put_ne other

theorem reads_stamped : Reads (stamped v m) "schema_version" (some (toString v)) := by
  unfold Reads
  rw [stamped,m.with_rows_self]
  exact stored_put

theorem Stepped.keeps_stamped (stepped : Stepped host v db m) : Keeps apart [] db (stamped (v + 1) m) :=
  stepped.keeps.trans (Keeps.with_rows (by decide))

theorem Sound.next (sound : Sound host v db) (low : 1 ≤ v) (stepped : Stepped host v db m) : Sound host (v + 1) (stamped (v + 1) m) where
  schema := stepped.schema
  conforms := conforms_put stepped.conforms
  distinct first := by
    have same : v = 1 := by omega
    subst same
    intro t listed
    have ids := ((usual_of_schema 1 (by decide) _ sound.schema).ids t listed).2
    have other : t ∉ apart := (by decide : ∀ t ∈ rebuilt, t ∉ apart) t listed
    exact distinct_of_agree (stepped.keeps_stamped.rows other (names_subset_columns ids)) (fun c key => List.mem_singleton.mp key ▸ ids)
      (sound.distinct (by decide) t listed)
  synced third := synced_with_config.mpr (stepped.synced (.inl (by omega)))
  legible early := by
    obtain ⟨read,reads,decodes⟩ := sound.legible (by omega)
    refine ⟨read,?_,decodes⟩
    unfold Reads
    rw [stored_stamped (by decide),stepped.identity (by omega)]
    exact reads

theorem OfVersion.next (version : OfVersion host v db) (earlier : v < CURRENT_SCHEMA_VERSION) (stepped : Stepped host v db m) :
    OfVersion host (v + 1) (stamped (v + 1) m) where
  toSound := version.toSound.next version.known.1 stepped
  known := ⟨Nat.le_add_left 1 v,earlier⟩
  version := .inl reads_stamped
  epoch := by
    obtain ⟨e,reads,supported⟩ := version.epoch
    refine ⟨e,?_,supported⟩
    unfold Reads
    rw [stored_stamped (by decide),stepped.settings "storage_epoch" (by decide)]
    exact reads

theorem Kept.refl (host : Host) (v : Nat) (db : Database) : Kept host v db v db where
  keeps := Keeps.refl db
  config _ listed _ := listed
  identity _ := rfl
  lifted early late := by omega

/-- The space of the registry stays with it. -/
theorem Lifted.keeps {read : Option String} (lifted : Lifted host read db) (keeps : Keeps apart [] db db') (columns : db.catalog.columns .embedding_spaces = spaces) :
    Lifted host read db' := by
  have names : db.catalog.names .embedding_spaces = spaces.map Column.name := congrArg (List.map Column.name) columns
  have rows := keeps.rows (t := .embedding_spaces) (by decide) (names_subset_columns (c := .name) (by rw [names]; decide))
  cases read with
  | none =>
    rw [show db.rows .embedding_spaces = [] from lifted,List.forall₂_nil_left_iff] at rows
    exact rows
  | some raw =>
    obtain ⟨fp,values,decoded,converted,r,stored,has⟩ := lifted
    rw [stored] at rows
    obtain ⟨r',_,agree,none_left,same⟩ := List.forall₂_cons_left_iff.mp rows
    rw [List.forall₂_nil_left_iff] at none_left
    subst none_left
    refine ⟨fp,values,decoded,converted,r',same,fun x listed => (agree x.1 ?_).trans (has x listed)⟩
    rw [names]
    exact names_space converted x listed

theorem columns_of_registry : ∀ v ∈ [13,14], ∀ k ∈ schemas v, k.columns .embedding_spaces = spaces := by decide +kernel

theorem Kept.next (kept : Kept host v db k m) (high : k < 14) (schema : m.catalog ∈ schemas k) (stepped : Stepped host k m db') :
    Kept host v db (k + 1) (stamped (k + 1) db') where
  keeps := kept.keeps.trans stepped.keeps_stamped
  config r listed unmanaged := by
    rw [stamped,db'.with_rows_self]
    refine mem_put_of_ne (stepped.config r (kept.config r listed unmanaged) unmanaged) ?_
    rintro same
    exact unmanaged (same ▸ by decide)
  identity early := by
    rw [stored_stamped (by decide),stepped.identity (by omega)]
    exact kept.identity (by omega)
  lifted early late := by
    rw [stored_stamped (by decide)]
    by_cases last : k = 12
    · obtain ⟨retired,lifted⟩ := stepped.lifted last
      refine ⟨retired,fun read reads => ?_⟩
      have reads' : Reads m "embedding_meta" read := (kept.identity (by omega)).trans reads
      have spaces_same : (stamped (k + 1) db').rows .embedding_spaces = db'.rows .embedding_spaces := db'.with_rows_ne .config _ (by decide)
      have lifted := lifted read reads'
      unfold Lifted at lifted ⊢
      rw [spaces_same]
      exact lifted
    · have still := stepped.identity last
      obtain ⟨retired,lifted⟩ := kept.lifted early (by omega)
      refine ⟨still.trans retired,fun read reads => (lifted read reads).keeps stepped.keeps_stamped ?_⟩
      have : k = 13 := by omega
      subst this
      exact columns_of_registry 13 (by decide) _ schema

end steps

/-! ### Under faults -/

section sessions
variable {host : Host} {fault : Nat → Option MemoryError} {db : Database} {v k : Nat} {c c' : Connection} {r : Except MemoryError Unit}

theorem ends_lift {x : Except MemoryError Unit} : Ends (liftM (n := Session) x) c r c' ↔ r = x ∧ c' = c := by
  change (x,c) = (r,c') ↔ _
  rw [Prod.mk.injEq,eq_comm,@eq_comm _ c]

/-- A step commits or leaves the state, with foreign keys enforced again. -/
theorem ends_migrate_step {m : Migration} {target : Nat} (on : c.settings.foreign_keys = true) (ended : Ends (migrate_step host fault m target) c r c') :
    (∃ t, r = .ok () ∧ Commits (m.transaction target (host.env { c.settings with foreign_keys := !m.disable_fk })) c.state () t ∧
      c' = { c.begun with state := t }) ∨
    ∃ e, r = .error e ∧ c' = c.begun ∧ (fault c.left.length = some e ∨
      (m.transaction target (host.env { c.settings with foreign_keys := !m.disable_fk })).run c.state = .error e) := by
  obtain ⟨state,⟨path,foreign_keys⟩,left⟩ := c
  cases on
  obtain ⟨script,disable_fk⟩ := m
  let step : Migration := ⟨script,disable_fk⟩
  let around : Connection := ⟨state,⟨path,!disable_fk⟩,left⟩
  -- The transaction runs under the settings in between, which are put back after it.
  obtain ⟨c₂,inner,restored⟩ : ∃ c₂, Ends (transact fault fun p => step.transaction target (host.env p)) around r c₂ ∧
      c' = { c₂ with settings := ⟨path,true⟩ } := by
    cases disable_fk with
    | false =>
      change Ends (attempt (transact fault fun p => step.transaction target (host.env p)) >>= fun result => liftM (n := Session) result) around r c' at ended
      rcases ends_bind.mp ended with ⟨result,c₂,attempted,last⟩ | ⟨e,attempted,_⟩
      · obtain ⟨inner,ran,same⟩ := ends_attempt.mp attempted
        cases same
        obtain ⟨rfl,rfl⟩ := ends_lift.mp last
        have same : c'.settings = ⟨path,true⟩ := settings_of_transact ran
        exact ⟨c',ran,by rw [← same]⟩
      · obtain ⟨_,_,failed⟩ := ends_attempt.mp attempted
        cases failed
    | true =>
      change Ends (set_foreign_keys false >>= fun _ => attempt (transact fault fun p => step.transaction target (host.env p)) >>= fun result =>
        set_foreign_keys true >>= fun _ => liftM (n := Session) result) ⟨state,⟨path,true⟩,left⟩ r c' at ended
      rcases ends_bind.mp ended with ⟨_,c₁,paused,ended⟩ | ⟨e,paused,_⟩
      · obtain ⟨_,rfl⟩ := ends_configure.mp paused
        rcases ends_bind.mp ended with ⟨result,c₂,attempted,ended⟩ | ⟨e,attempted,_⟩
        · obtain ⟨inner,ran,same⟩ := ends_attempt.mp attempted
          cases same
          rcases ends_bind.mp ended with ⟨_,c₃,restored,last⟩ | ⟨e,restored,_⟩
          · obtain ⟨_,rfl⟩ := ends_configure.mp restored
            obtain ⟨rfl,rfl⟩ := ends_lift.mp last
            refine ⟨c₂,ran,?_⟩
            rw [settings_of_transact ran]
          · obtain ⟨failed,_⟩ := ends_configure.mp restored
            cases failed
        · obtain ⟨_,_,failed⟩ := ends_attempt.mp attempted
          cases failed
      · obtain ⟨failed,_⟩ := ends_configure.mp paused
        cases failed
  rcases ends_transact.mp inner with ⟨_,t,_,committed,rfl,rfl⟩ | ⟨e,cause,rfl,rfl⟩
  · exact .inl ⟨t,rfl,committed,restored⟩
  · exact .inr ⟨e,rfl,restored,cause.imp_right And.right⟩

/-- A connection to a database that was of a version and is of another now. Whatever a crash
    can leave of it is of a version in between. -/
structure Holding (host : Host) (v : Nat) (db : Database) (k : Nat) (c : Connection) : Prop where
  enforced : c.settings.foreign_keys = true
  later : v ≤ k
  version : OfVersion host k c.state
  kept : Kept host v db k c.state
  left : ∀ s, c.Leaves s → ∃ j, v ≤ j ∧ j ≤ k ∧ OfVersion host j s ∧ Kept host v db j s

/-- The file is opened. -/
theorem Holding.opened {s : Database} (later : v ≤ k) (version : OfVersion host k s) (kept : Kept host v db k s) (path : String) :
    Holding host v db k (open_connection path s) where
  enforced := rfl
  later
  version
  kept
  left := by
    rintro s' (none_yet | rfl)
    · cases none_yet
    · exact ⟨k,later,le_rfl,version,kept⟩

/-- A transaction that failed. -/
theorem Holding.begun (holding : Holding host v db k c) : Holding host v db k c.begun :=
  ⟨holding.enforced,holding.later,holding.version,holding.kept,fun s leaves => holding.left s (Sessions.Connection.leaves_begun.mp leaves)⟩

/-- A transaction that committed. -/
theorem Holding.committed {j : Nat} {t : Database} (holding : Holding host v db k c) (later : k ≤ j) (version : OfVersion host j t)
    (kept : Kept host v db j t) : Holding host v db j { c.begun with state := t } where
  enforced := holding.enforced
  later := holding.later.trans later
  version
  kept
  left := by
    rintro s (listed | rfl)
    · have leaves : c.Leaves s := (List.mem_cons.mp listed).elim .inr .inl
      obtain ⟨i,from_v,to_k,of_i,kept_i⟩ := holding.left s leaves
      exact ⟨i,from_v,to_k.trans later,of_i,kept_i⟩
    · exact ⟨j,holding.later.trans later,le_rfl,version,kept⟩

theorem Holding.step {m : Migration} (holding : Holding host v db k c) (found : (MIGRATIONS host)[k - 1]? = some m)
    (ended : Ends (migrate_step host fault m (k + 1)) c r c') :
    r = .ok () ∧ Holding host v db (k + 1) c' ∨ ∃ e, r = .error e ∧ Holding host v db k c' ∧ fault c.left.length = some e := by
  have high : k - 1 < 13 := (List.getElem?_eq_some_iff.mp found).1
  obtain ⟨t,ran,stepped⟩ := transaction_commits (host.env { c.settings with foreign_keys := !m.disable_fk }) found
    holding.version.known.1 holding.version.toSound rfl rfl (by simp [Host.env,null])
  rcases ends_migrate_step holding.enforced ended with ⟨t',rfl,committed,rfl⟩ | ⟨e,rfl,rfl,due | failed⟩
  · obtain ⟨_,rfl⟩ := ran.functional committed
    have earlier : k < CURRENT_SCHEMA_VERSION := by
      have := holding.version.known
      change k < 14
      omega
    exact .inl ⟨rfl,holding.committed (by omega) (holding.version.next earlier stepped)
      (holding.kept.next earlier holding.version.schema stepped)⟩
  · exact .inr ⟨e,rfl,holding.begun,due⟩
  · rw [Commits,failed] at ran
    cases ran

theorem migrations_cons {target : Nat} {m : Migration} {list : List Migration} (rest : (MIGRATIONS host).drop (target - 2) = m :: list) (second : 2 ≤ target) :
    (MIGRATIONS host)[target - 2]? = some m ∧ (MIGRATIONS host).drop (target + 1 - 2) = list := by
  have head := congrArg List.head? rest
  have tail := congrArg List.tail rest
  rw [List.head?_drop] at head
  rw [List.tail_drop,show target - 2 + 1 = target + 1 - 2 by omega] at tail
  exact ⟨head,tail⟩

/-- The steps from the version on, up to the first that is at fault. -/
theorem Holding.run {version target : Nat} {list : List Migration} (rest : (MIGRATIONS host).drop (target - 2) = list) (second : 2 ≤ target)
    (turn : target ≤ version ∧ k = version ∨ version < target ∧ k + 1 = target)
    (holding : Holding host v db k c) (ended : Ends (run_migrations host fault version list target) c r c') :
    ∃ j, k ≤ j ∧ Holding host v db j c' ∧ (r = .ok () → j = 14) ∧ ∀ e, r = .error e → ∃ n, fault n = some e := by
  have bound : k ≤ 14 := holding.version.known.2
  have first := holding.version.known.1
  induction list generalizing target k c with
  | nil =>
    obtain ⟨rfl,rfl⟩ := ends_pure.mp ended
    have length : 13 ≤ target - 2 := List.drop_eq_nil_iff.mp rest
    exact ⟨k,le_rfl,holding,fun _ => by omega,fun e failed => by cases failed⟩
  | cons m rest' ih =>
    obtain ⟨found,rest''⟩ := migrations_cons rest second
    by_cases due : version < target
    · have same : k + 1 = target := (turn.resolve_left fun early => by omega).2
      subst same
      have unfolded : run_migrations host fault version (m :: rest') (k + 1) =
          (do migrate_step host fault m (k + 1); run_migrations host fault version rest' (k + 1 + 1)) := by
        rw [run_migrations,if_pos due]
      rw [unfolded] at ended
      rcases ends_bind.mp ended with ⟨_,c₁,stepped,later⟩ | ⟨e,stepped,rfl⟩
      · obtain ⟨_,holding₁⟩ := (holding.step found stepped).resolve_right fun ⟨e,failed,_⟩ => by cases failed
        obtain ⟨j,from_k,holding',complete,faulty⟩ := ih rest'' (by omega) (.inr ⟨by omega,rfl⟩) holding₁ later holding₁.version.known.2
          holding₁.version.known.1
        exact ⟨j,by omega,holding',complete,faulty⟩
      · obtain ⟨e',same,holding',due'⟩ := (holding.step found stepped).resolve_left fun ⟨done,_⟩ => by cases done
        cases same
        refine ⟨k,le_rfl,holding',fun done => ?_,fun e'' same => ?_⟩
        · cases done
        · cases same
          exact ⟨_,due'⟩
    · have skipped : run_migrations host fault version (m :: rest') target = run_migrations host fault version rest' (target + 1) := by
        rw [run_migrations,if_neg due]
      rw [skipped] at ended
      have same : k = version := (turn.resolve_right fun late => due late.1).2
      exact ih rest'' (by omega) (by omega) holding ended bound first

end sessions
end MemoryEngine.Schema
