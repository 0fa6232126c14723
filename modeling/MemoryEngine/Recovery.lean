import MemoryEngine.FirstOpening

/-! What the next opening makes of a file that an opening left behind. -/

namespace MemoryEngine.Schema
open Relational Transaction Sessions

theorem current_mem : current ∈ schemas 14 := by
  have known : ∃ k ∈ schemas 14, Same k current := by decide +kernel
  obtain ⟨k,listed,same⟩ := known
  exact same.eq ▸ listed

/-- The first statements create tables that get no rows, before the one of the configuration. -/
theorem drafted_early : ∀ i < 5,
    (∃ d ∈ drafts current apart [] true (SCHEMA_DDL.take i) (Draft.of Catalog.empty), d.catalog.tables .config = none ∧ d.catalog.tables .scopes = none ∧
      ∃ d' ∈ drafts current apart [.scopes] true SCHEMA_DDL (Draft.of d.catalog), Same d'.catalog current ∧ .config ∈ d'.blank) ∧
    .config ∉ (SCHEMA_DDL.take i).flatMap Relational.Statement.subjects := by decide +kernel

/-- From the fifth statement on there is a configuration without rows, and the facts have a scope. -/
theorem drafted_late : ∀ i < SCHEMA_DDL.length + 1, 5 ≤ i →
    ∃ d ∈ drafts current apart [.scopes] true (SCHEMA_DDL.take i) (Draft.of Catalog.empty), .config ∈ d.blank ∧ (d.catalog.tables .config).isSome = true ∧
      Configured d.catalog ∧ shapes true (definitions 2) d.catalog = none := by decide +kernel

section recovery
variable {host : Host} {fault : Nat → Option MemoryError} {db s whole : Database} {v k i : Nat} {path : String} {backup_dir : Option String} {c c' : Connection}
variable {r : Except MemoryError Unit} {env : Env Cell}

theorem conforms_fresh (valid : Cell → Bool) : Conforms valid current fresh := by
  intro t r none_yet
  cases none_yet

/-- A database with every statement of the schema, before its version. -/
structure Complete (host : Host) (whole : Database) : Prop where
  catalog : whole.catalog = current
  conforms : Conforms host.json_valid current whole
  config : whole.rows .config = []

/-- The rest of the schema goes on from the first tables. -/
theorem complete_early (few : i < 5) (on : env.foreign_keys = true) (valid : env.valid = host.json_valid)
    (ran : fresh.run env (SCHEMA_DDL.take i) = some s) :
    s.catalog.tables .config = none ∧ s.rows .config = [] ∧
      ∃ whole, s.run env SCHEMA_DDL = some whole ∧ Complete host whole ∧ Keeps apart [] s whole := by
  obtain ⟨⟨d,drafted,unconfigured,unscoped,d',drafted',same,blank⟩,outside⟩ := drafted_early i few
  rw [← on] at drafted drafted'
  obtain ⟨s',ran',advances⟩ := run_of_drafts drafted free_apart (Draft.fits_of fresh) (conforms_fresh env.valid)
  cases ran.symm.trans ran'
  rw [← advances.fits.catalog] at unconfigured unscoped drafted'
  obtain ⟨whole,completed,advances'⟩ := run_of_drafts drafted' free_apart (Draft.fits_of s) advances.conforms
  refine ⟨unconfigured,advances.rows _ outside,whole,completed,⟨?_,valid ▸ advances'.conforms,advances'.fits.blank _ blank⟩,advances'.keeps.exact ?_⟩
  · exact advances'.fits.catalog.trans same.eq
  · exact fun t listed => List.mem_singleton.mp listed ▸ unscoped

theorem Complete.of_version (complete : Complete host whole) : OfVersion host 14 (versioned whole) where
  known := by decide
  schema := complete.catalog ▸ current_mem
  conforms := conforms_put complete.conforms
  distinct early := absurd early (by decide)
  synced third := absurd third (by decide)
  legible early := absurd early (by decide)
  version := .inl reads_stamped
  epoch := by
    refine ⟨none,?_,1,by decide,by decide⟩
    unfold Reads versioned
    rw [stored_stamped (by decide),complete.config]
    rfl

/-- The next opening succeeds, with the current schema and every row that was there. -/
def Recovers (host : Host) (db : Database) : Prop :=
  ∀ path backup_dir, (∀ n, Backs host backup_dir n (open_connection path db)) →
    ∃ c, Ends (open_pool host (fun _ => none) backup_dir) (open_connection path db) (.ok ()) c ∧ c.state.catalog = current ∧ Keeps apart [] db c.state ∧
      (∀ r ∈ db.rows .config, r .key ∉ managed → r ∈ c.state.rows .config) ∧ ∀ v, OfVersion host v db → Kept host v db 14 c.state

theorem OfVersion.present (version : OfVersion host v db) : (db.catalog.tables .config).isSome = true := by
  have configured := (usual_of_schema v (Nat.lt_succ_of_le version.known.2) _ version.schema).configured
  exact names_subset_columns (c := .key) (by rw [configured.names]; decide)

theorem current_of_schema {k : Catalog} (schema : k ∈ schemas 14) : k = current := (schemas_current k schema).eq

/-- Where there is a configuration, opening is migrating. -/
theorem ends_open_pool (present : (c.state.catalog.tables .config).isSome = true) :
    Ends (open_pool host fault backup_dir) c r c' ↔ Ends (migrate host fault backup_dir) c r c' := by
  constructor
  · intro ended
    rcases ends_bind.mp ended with ⟨_,m,first,rest⟩ | ⟨e,failed,_⟩
    · obtain ⟨_,rfl⟩ := (ends_init_schema_present present).mp first
      exact rest
    · cases ((ends_init_schema_present present).mp failed).1
  · exact fun rest => ends_bind.mpr (.inl ⟨(),c,(ends_init_schema_present present).mpr ⟨rfl,rfl⟩,rest⟩)

/-- An opening without faults finishes what the ones before it began. -/
theorem finishes (later : v ≤ k) (version : OfVersion host k s) (kept : Kept host v db k s) (backs : Backs host backup_dir k (open_connection path s)) :
    ∃ c, Ends (open_pool host (fun _ => none) backup_dir) (open_connection path s) (.ok ()) c ∧ Holding host v db 14 c := by
  obtain ⟨r,c,ended⟩ := ends_total (migrate host (fun _ => none) backup_dir) (open_connection path s)
  obtain ⟨j,_,holding,complete,faulty⟩ := (Holding.opened later version kept path).migrate ended
  have done : r = .ok () := by
    cases r with
    | ok => rfl
    | error e =>
      rcases faulty e rfl with ⟨n,due⟩ | ⟨_,unbacked⟩
      · cases due
      · exact absurd backs unbacked
  subst done
  exact ⟨c,(ends_open_pool version.present).mpr ended,complete rfl ▸ holding⟩

/-- A database of a known version recovers. -/
theorem OfVersion.recovers (version : OfVersion host v db) : Recovers host db := by
  intro path backup_dir backs
  obtain ⟨c,ended,holding⟩ := finishes le_rfl version (Kept.refl host v db) (backs v)
  refine ⟨c,ended,current_of_schema holding.version.schema,holding.kept.keeps,holding.kept.config,fun v' version' => ?_⟩
  obtain ⟨c',ended',holding'⟩ := finishes le_rfl version' (Kept.refl host v' db) (backs v')
  obtain ⟨_,rfl⟩ := ended.functional ended'
  exact holding'.kept

/-- Nothing is left to do for a database of the current version with an epoch. -/
theorem ends_migrate_finished {epoch : String} (version : OfVersion host 14 c.state) (reads : Reads c.state "storage_epoch" (some epoch)) :
    Ends (migrate host fault backup_dir) c r c' ↔ r = .ok () ∧ c' = c := by
  have configured := (usual_of_schema 14 (by decide) _ version.schema).configured
  obtain ⟨e,again,n,supported,parsed⟩ := version.epoch
  cases again.unique reads
  have epoch_read := commits_supported_epoch configured reads parsed supported
  refine (ends_read_bind version.commits_version).trans ((ends_read_bind epoch_read).trans ?_)
  exact ends_pure

theorem reads_with_epoch (db : Database) : Reads (with_epoch db) "storage_epoch" (some (toString STORAGE_EPOCH)) := by
  unfold Reads with_epoch
  rw [db.with_rows_self]
  exact stored_put

theorem Complete.configured (complete : Complete host whole) : Configured whole.catalog :=
  complete.catalog ▸ (usual_of_schema 14 (by decide) _ current_mem).configured

/-- The whole schema goes in where there is no configuration yet. -/
theorem init_schema_completes (unconfigured : s.catalog.tables .config = none) (completed : s.run (host.env ⟨path,true⟩) SCHEMA_DDL = some whole)
    (complete : Complete host whole) (ended : Ends (init_schema host fault) (open_connection path s) r c) :
    (∀ s', c.Leaves s' → Leftover host s path s') ∧ (r = .ok () → c.state = with_epoch (versioned whole)) ∧ ∀ e, r = .error e → ∃ n, fault n = some e := by
  obtain ⟨leaves,_,done,faulty⟩ := create_schema_leaves (fun whole' ran => by cases completed.symm.trans ran; exact complete.configured)
    ((ends_init_schema_absent unconfigured).mp ended)
  refine ⟨leaves,fun fine => ?_,fun e failed => (faulty e failed).resolve_right (by rw [completed]; simp)⟩
  obtain ⟨whole',ran,same⟩ := done fine
  cases completed.symm.trans ran
  exact same

theorem recovers_early (path : String) (few : i < 5) (ran : fresh.run (host.env ⟨path,true⟩) (SCHEMA_DDL.take i) = some s) : Recovers host s := by
  obtain ⟨unconfigured,empty,whole,completed,complete,keeps⟩ := complete_early few rfl rfl ran
  intro path' backup_dir _
  obtain ⟨r,c,ended⟩ := ends_total (init_schema host fun _ => none) (open_connection path' s)
  have completed : s.run (host.env ⟨path',true⟩) SCHEMA_DDL = some whole := completed
  obtain ⟨_,done,faulty⟩ := init_schema_completes unconfigured completed complete ended
  have fine : r = .ok () := by
    cases r with
    | ok => rfl
    | error e =>
      obtain ⟨n,due⟩ := faulty e rfl
      cases due
  subst fine
  have state := done rfl
  have version : OfVersion host 14 c.state := state ▸ complete.of_version.with_epoch
  have epoch : Reads c.state "storage_epoch" (some (toString STORAGE_EPOCH)) := state ▸ reads_with_epoch (versioned whole)
  refine ⟨c,ends_bind.mpr (.inl ⟨(),c,ended,(ends_migrate_finished version epoch).mpr ⟨rfl,rfl⟩⟩),current_of_schema version.schema,?_,?_,?_⟩
  · rw [state]
    exact keeps.trans ((Keeps.with_rows (by decide)).trans (Keeps.with_rows (by decide)))
  · rw [empty]
    intro r none_yet
    cases none_yet
  · intro v version
    have present := version.present
    rw [unconfigured] at present
    cases present

/-- A configuration without rows, beside facts with a scope. -/
structure Stuck (s : Database) : Prop where
  present : (s.catalog.tables .config).isSome = true
  configured : Configured s.catalog
  empty : s.rows .config = []
  scoped_facts : shapes true (definitions 2) s.catalog = none

/-- The step to version 2 cannot run where the facts have a scope already. -/
theorem Stuck.opens (stuck : Stuck s) (ended : Ends (open_pool host fault backup_dir) (open_connection path s) r c) :
    (∃ e, r = .error e) ∧ ∀ s', c.Leaves s' → s' = s := by
  have opened : ∀ s', (open_connection path s).Leaves s' → s' = s := by
    rintro s' (none_yet | rfl)
    · cases none_yet
    · rfl
  have unread : ∀ key, Reads s key none := by
    intro key
    unfold Reads
    rw [stuck.empty]
    rfl
  have version_read : Commits stored_version (open_connection path s).state 1 (open_connection path s).state :=
    commits_stored_version stuck.configured (unread _) (by decide)
  have epoch_read : Commits supported_epoch (open_connection path s).state none (open_connection path s).state :=
    commits_supported_epoch stuck.configured (unread _) (by decide : parse_unsigned (2 ^ 16) "1" = some 1) (by decide)
  replace ended := (ends_read_bind epoch_read).mp ((ends_read_bind version_read).mp ((ends_open_pool stuck.present).mp ended))
  have steps : Ends (do
      backup_dir.forM fun dir => backup_before_migration host dir 1
      run_migrations host fault 1 (MIGRATIONS host) 2
      stamp_epoch host fault none) (open_connection path s) r c := ended
  rcases ends_bind.mp steps with ⟨_,m,backed,rest⟩ | ⟨e,backed,rfl⟩
  · obtain rfl := ends_backups backed
    have first : Ends (do
        migrate_step host fault ⟨migrate_v1_to_v2,false⟩ 2
        run_migrations host fault 1 ((MIGRATIONS host).tail) 3
        stamp_epoch host fault none) (open_connection path s) r c := by
      have unfolded : run_migrations host fault 1 (MIGRATIONS host) 2 =
          (do migrate_step host fault ⟨migrate_v1_to_v2,false⟩ 2; run_migrations host fault 1 ((MIGRATIONS host).tail) 3) := rfl
      rw [unfolded,bind_assoc] at rest
      exact rest
    rcases ends_bind.mp first with ⟨_,m,stepped,_⟩ | ⟨e,stepped,rfl⟩
    · rcases ends_migrate_step rfl stepped with ⟨t,_,committed,_⟩ | ⟨e,failed,_⟩
      · obtain ⟨_,t',script,_⟩ := commits_bind.mp committed
        have shape := shapes_of_run (commits_migrate_v1_to_v2.mp script)
        have none_then : shapes true (definitions 2) (open_connection path s).state.catalog = none := stuck.scoped_facts
        rw [show (host.env { (open_connection path s).settings with foreign_keys := !false }).foreign_keys = true from rfl,none_then] at shape
        cases shape
      · cases failed
    · rcases ends_migrate_step rfl stepped with ⟨t,done,_⟩ | ⟨e',_,same,_⟩
      · cases done
      · subst same
        exact ⟨⟨e,rfl⟩,fun s' leaves => opened s' (Sessions.Connection.leaves_begun.mp leaves)⟩
  · obtain rfl := ends_backups backed
    exact ⟨⟨e,rfl⟩,opened⟩

theorem Stuck.not_recovers (stuck : Stuck s) : ¬Recovers host s := by
  intro recovers
  obtain ⟨c,ended,_⟩ := recovers "" none (fun n dir none_here => by cases none_here)
  obtain ⟨⟨e,failed⟩,_⟩ := stuck.opens ended
  cases failed

theorem stuck_late (late : 5 ≤ i) (inside : i < SCHEMA_DDL.length + 1) (ran : fresh.run (host.env ⟨path,true⟩) (SCHEMA_DDL.take i) = some s) : Stuck s := by
  obtain ⟨d,drafted,blank,present,configured,scoped_facts⟩ := drafted_late i inside late
  have drafted : drafts current apart [.scopes] (host.env ⟨path,true⟩).foreign_keys (SCHEMA_DDL.take i) (Draft.of fresh.catalog) = some d := drafted
  obtain ⟨s',ran',advances⟩ := run_of_drafts drafted free_apart (Draft.fits_of fresh) (conforms_fresh _)
  cases ran.symm.trans ran'
  rw [← advances.fits.catalog] at present configured scoped_facts
  exact ⟨present,configured,advances.fits.blank _ blank,scoped_facts⟩

end recovery
end MemoryEngine.Schema
