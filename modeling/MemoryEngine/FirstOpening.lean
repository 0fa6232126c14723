import MemoryEngine.Opening

/-! The first opening of a file: each statement of the schema commits on its own, so that a
crash can leave any prefix of them. -/

namespace MemoryEngine.Schema
open Relational Transaction Sessions

/-- The schema of a new database, statement by statement. -/
def SCHEMA_DDL : List Statement := TABLES_DDL ++ SCOPES_DDL ++ FTS5_DDL ++ TRIGGERS_DDL ++ INDEXES_DDL

/-- A new file. -/
def fresh : Database := ⟨Catalog.empty,fun _ => [],fun _ => []⟩

section batches
variable {host : Host} {fault : Nat → Option MemoryError} {start : Database} {pragmas : Pragmas} {done more : List Statement} {c c' : Connection}
variable {r : Except MemoryError Unit}

/-- A connection after some statements, each of which committed. -/
structure Defining (host : Host) (start : Database) (pragmas : Pragmas) (done : List Statement) (c : Connection) : Prop where
  settings : c.settings = pragmas
  state : start.run (host.env pragmas) done = some c.state
  left : ∀ s, c.Leaves s → ∃ p, p <+: done ∧ start.run (host.env pragmas) p = some s

theorem Defining.opened (path : String) : Defining host start ⟨path,true⟩ [] (open_connection path start) where
  settings := rfl
  state := rfl
  left := by
    rintro s (none_yet | rfl)
    · cases none_yet
    · exact ⟨[],List.prefix_rfl,rfl⟩

theorem Defining.begun (defining : Defining host start pragmas done c) : Defining host start pragmas done c.begun :=
  ⟨defining.settings,defining.state,fun s leaves => defining.left s (Sessions.Connection.leaves_begun.mp leaves)⟩

theorem Defining.execute {s : Statement} (defining : Defining host start pragmas done c)
    (ended : Ends (autocommit host fault fun env => execute env s) c r c') :
    r = .ok () ∧ Defining host start pragmas (done ++ [s]) c' ∨
    ∃ e, r = .error e ∧ Defining host start pragmas done c' ∧ ((∃ n, fault n = some e) ∨ start.run (host.env pragmas) (done ++ [s]) = none) := by
  have next : start.run (host.env pragmas) (done ++ [s]) = c.state.exec (host.env pragmas) s := by
    rw [run_append,defining.state,Option.bind_some,run_cons]
    cases c.state.exec (host.env pragmas) s <;> rfl
  rcases ends_transact.mp ended with ⟨_,t,_,committed,rfl,rfl⟩ | ⟨e,due | ⟨_,failed⟩,rfl,rfl⟩
  · rw [defining.settings] at committed
    have ran := next.trans (commits_execute.mp committed)
    refine .inl ⟨rfl,defining.settings,ran,?_⟩
    rintro s' (listed | rfl)
    · obtain ⟨p,before,ran'⟩ := defining.left s' ((List.mem_cons.mp listed).elim .inr .inl)
      exact ⟨p,before.trans (List.prefix_append done [s]),ran'⟩
    · exact ⟨_,List.prefix_rfl,ran⟩
  · exact .inr ⟨e,rfl,defining.begun,.inl ⟨_,due⟩⟩
  · refine .inr ⟨e,rfl,defining.begun,.inr ?_⟩
    rw [defining.settings] at failed
    rw [next]
    cases executed : c.state.exec (host.env pragmas) s with
    | none => rfl
    | some t =>
      have committed := commits_execute.mpr executed
      rw [Commits,failed] at committed
      cases committed

/-- A batch goes up to the first statement that fails. -/
theorem Defining.batch (defining : Defining host start pragmas done c) (ended : Ends (autocommit_batch host fault more) c r c') :
    r = .ok () ∧ Defining host start pragmas (done ++ more) c' ∨
    ∃ e p, r = .error e ∧ p <+: more ∧ Defining host start pragmas (done ++ p) c' ∧
      ((∃ n, fault n = some e) ∨ start.run (host.env pragmas) (done ++ more) = none) := by
  induction more generalizing done c with
  | nil =>
    obtain ⟨rfl,rfl⟩ := ends_pure.mp ended
    rw [List.append_nil]
    exact .inl ⟨rfl,defining⟩
  | cons s rest ih =>
    have split : done ++ s :: rest = done ++ [s] ++ rest := by simp
    have ended : Ends (do autocommit host fault fun env => Schema.execute env s; autocommit_batch host fault rest) c r c' := ended
    rcases ends_bind.mp ended with ⟨_,m,first,later⟩ | ⟨e,first,rfl⟩
    · obtain ⟨_,defining'⟩ := (defining.execute first).resolve_right fun ⟨e,failed,_⟩ => by cases failed
      rw [split]
      rcases ih defining' later with done_all | ⟨e,p,rfl,front,at_p,cause⟩
      · exact .inl done_all
      · refine .inr ⟨e,s :: p,rfl,(List.prefix_cons_inj s).mpr front,?_,cause⟩
        rw [show done ++ s :: p = done ++ [s] ++ p by simp]
        exact at_p
    · obtain ⟨e',same,here,cause⟩ := (defining.execute first).resolve_left fun ⟨fine,_⟩ => by cases fine
      cases same
      refine .inr ⟨e,[],rfl, List.nil_prefix,?_,cause.imp_right fun stuck => ?_⟩
      · rw [List.append_nil]
        exact here
      · rw [split,run_append,stuck]
        rfl

end batches

section first
variable {host : Host} {fault : Nat → Option MemoryError} {start : Database} {path : String} {c c' : Connection} {r : Except MemoryError Unit}

/-- The database with the current version. -/
def versioned (db : Database) : Database := stamped CURRENT_SCHEMA_VERSION db

/-- What the first opening of a file can leave. -/
inductive Leftover (host : Host) (start : Database) (path : String) (s : Database) : Prop
  | defining (p : List Statement) (front : p <+: SCHEMA_DDL) (ran : start.run (host.env ⟨path,true⟩) p = some s)
  | versioned (whole : Database) (ran : start.run (host.env ⟨path,true⟩) SCHEMA_DDL = some whole) (same : s = versioned whole)
  | finished (whole : Database) (ran : start.run (host.env ⟨path,true⟩) SCHEMA_DDL = some whole) (same : s = with_epoch (versioned whole))

theorem autocommit_batch_append {first rest : List Statement} :
    autocommit_batch host fault (first ++ rest) = (do autocommit_batch host fault first; autocommit_batch host fault rest) := by
  unfold autocommit_batch
  exact List.forM_append

/-- The statements of the schema and the two rows of its version. -/
def create_schema (host : Host) (fault : Nat → Option MemoryError) : Session Unit := do
  autocommit_batch host fault SCHEMA_DDL
  autocommit host fault fun env => set_config env "schema_version" (toString CURRENT_SCHEMA_VERSION)
  autocommit host fault fun env => set_config env "storage_epoch" (toString STORAGE_EPOCH)

theorem init_schema_eq : init_schema host fault =
    ExceptT.mk fun c => if (c.state.catalog.tables .config).isSome then (.ok (),c) else (create_schema host fault).run.run c := by
  unfold create_schema init_schema
  simp only [SCHEMA_DDL,autocommit_batch_append,bind_assoc]
  rfl

theorem ends_init_schema_present (present : (c.state.catalog.tables .config).isSome = true) :
    Ends (init_schema host fault) c r c' ↔ r = .ok () ∧ c' = c := by
  have unfolded : (init_schema host fault).run.run c = (.ok (),c) := by
    rw [init_schema_eq]
    exact if_pos present
  rw [Sessions.Ends,unfolded,Prod.mk.injEq,eq_comm,@eq_comm _ c]

theorem ends_init_schema_absent (absent : c.state.catalog.tables .config = none) :
    Ends (init_schema host fault) c r c' ↔ Ends (create_schema host fault) c r c' := by
  have unfolded : (init_schema host fault).run.run c = (create_schema host fault).run.run c := by
    rw [init_schema_eq]
    exact if_neg (by rw [absent]; decide)
  rw [Sessions.Ends,unfolded]
  rfl

/-- What is left of the first opening, however it ends. -/
theorem create_schema_leaves (configured : ∀ whole, start.run (host.env ⟨path,true⟩) SCHEMA_DDL = some whole → Configured whole.catalog)
    (ended : Ends (create_schema host fault) (open_connection path start) r c') :
    (∀ s, c'.Leaves s → Leftover host start path s) ∧ c'.settings = ⟨path,true⟩ ∧
    (r = .ok () → ∃ whole, start.run (host.env ⟨path,true⟩) SCHEMA_DDL = some whole ∧ c'.state = with_epoch (versioned whole)) ∧
    ∀ e, r = .error e → (∃ n, fault n = some e) ∨ start.run (host.env ⟨path,true⟩) SCHEMA_DDL = none := by
  have opened : Defining host start ⟨path,true⟩ [] (open_connection path start) := Defining.opened path
  rcases ends_bind.mp ended with ⟨_,c₁,defined,ended⟩ | ⟨e,failed,rfl⟩
  · obtain ⟨_,defining⟩ := (opened.batch defined).resolve_right fun ⟨e,p,failed,_⟩ => by cases failed
    have whole : start.run (host.env ⟨path,true⟩) SCHEMA_DDL = some c₁.state := defining.state
    have before : ∀ s, c₁.Leaves s → Leftover host start path s := fun s leaves =>
      let ⟨p,front,ran⟩ := defining.left s leaves
      .defining p front ran
    have here := configured c₁.state whole
    rcases ends_bind.mp ended with ⟨_,c₂,stamped,ended⟩ | ⟨e,failed,rfl⟩
    · rcases ends_set_config here stamped with ⟨_,rfl⟩ | ⟨e,failed,_⟩
      · have after : ∀ s, Sessions.Connection.Leaves { c₁.begun with state := versioned c₁.state } s → Leftover host start path s := by
          rintro s (listed | rfl)
          · exact before s ((List.mem_cons.mp listed).elim .inr .inl)
          · exact .versioned c₁.state whole rfl
        have there : Configured (versioned c₁.state).catalog := here
        rcases ends_set_config (c := { c₁.begun with state := versioned c₁.state }) there ended with ⟨rfl,rfl⟩ | ⟨e,rfl,rfl,due⟩
        · refine ⟨?_,defining.settings,fun _ => ⟨c₁.state,whole,rfl⟩,fun e failed => by cases failed⟩
          rintro s (listed | rfl)
          · exact after s ((List.mem_cons.mp listed).elim .inr .inl)
          · exact .finished c₁.state whole rfl
        · refine ⟨fun s leaves => after s (Sessions.Connection.leaves_begun.mp leaves),defining.settings,fun done => (by cases done),fun e' same => ?_⟩
          cases same
          exact .inl due
      · cases failed
    · rcases ends_set_config here failed with ⟨done,_⟩ | ⟨e',same,rfl,due⟩
      · cases done
      · cases same
        refine ⟨fun s leaves => before s (Sessions.Connection.leaves_begun.mp leaves),defining.settings,fun done => (by cases done),fun e' same => ?_⟩
        cases same
        exact .inl due
  · obtain ⟨e',p,same,front,defining,cause⟩ := (opened.batch failed).resolve_left fun ⟨done,_⟩ => by cases done
    cases same
    refine ⟨fun s leaves => ?_,defining.settings,fun done => (by cases done),fun e' same => ?_⟩
    · obtain ⟨p',front',ran⟩ := defining.left s leaves
      exact .defining p' (front'.trans front) ran
    · cases same
      exact cause

end first
end MemoryEngine.Schema
