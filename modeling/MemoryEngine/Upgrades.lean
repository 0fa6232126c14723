import MemoryEngine.Recovery

/-! Whole lives of a file: it is opened any number of times, and each opening can be cut short
by a fault, or by a crash between two of its transactions. -/

namespace MemoryEngine.Schema
open Relational Transaction Sessions

/-- What an opening of a database can leave. -/
def Opens (host : Host) (db s : Database) : Prop :=
  ∃ path fault backup_dir r c, Ends (open_pool host fault backup_dir) (open_connection path db) r c ∧ c.Leaves s

section upgrades
variable {host : Host} {db s s' : Database} {v k : Nat} {path : String} {backup_dir : Option String}

/-- However an opening ends, it loses nothing and goes back to no earlier version. -/
theorem version_of_opens (later : v ≤ k) (version : OfVersion host k s) (kept : Kept host v db k s) (opens : Opens host s s') :
    ∃ j, k ≤ j ∧ OfVersion host j s' ∧ Kept host v db j s' := by
  obtain ⟨path,fault,backup_dir,r,c,ended,leaves⟩ := opens
  obtain ⟨_,_,holding,_⟩ := (Holding.opened le_rfl version (Kept.refl host k s) path).migrate ((ends_open_pool version.present).mp ended)
  obtain ⟨i,from_k,_,of_i,_⟩ := holding.left s' leaves
  obtain ⟨_,_,holding',_⟩ := (Holding.opened later version kept path).migrate ((ends_open_pool version.present).mp ended)
  obtain ⟨j,_,_,of_j,kept_j⟩ := holding'.left s' leaves
  have same : i = j := (Commits.functional of_j.commits_version of_i.commits_version).1
  exact ⟨j,same ▸ from_k,of_j,kept_j⟩

/-- A host that takes every backup. -/
def plain_host : Host where
  datetime_now := "2026-01-01 00:00:00"
  json_valid cell := cell = .text "\x7b\x7d"
  from_str _ := .error "expected value at line 1 column 1"
  join dir file := dir ++ "/" ++ file
  file_name path := path
  backup _ _ := .ok ()

def row (values : List (ColumnName × Cell)) : ColumnName → Cell := fun c => (values.lookup c).getD .null

end upgrades

/-! ### A new file -/

section new
variable {host : Host} {fault : Nat → Option MemoryError} {env : Env Cell} {db s s' : Database} {i j : Nat} {path : String} {backup_dir : Option String}
variable {r : Except MemoryError Unit} {c : Connection}

/-- A table that is only created where it is missing. -/
def creates : Statement → Option TableName
  | .create_table true t _ => some t
  | _ => none

theorem creates_early : ∀ i < 5, ∀ k ∈ shapes true (SCHEMA_DDL.take i) Catalog.empty,
    ∀ s ∈ SCHEMA_DDL.take i, ∃ t ∈ creates s, (k.tables t).isSome = true := by decide +kernel

/-- Tables that are there are not created again. -/
theorem run_again {statements : List Statement} (there : ∀ s ∈ statements, ∃ t ∈ creates s, (db.catalog.tables t).isSome = true) :
    db.run env statements = some db := by
  induction statements with
  | nil => rfl
  | cons s rest ih =>
    obtain ⟨t,creating,present⟩ := there s List.mem_cons_self
    have again : db.exec env s = some db := by
      unfold creates at creating
      split at creating
      · cases creating
        exact exec_create_table_again present
      · cases creating
    rw [run_cons,again]
    exact ih fun s' listed => there s' (List.mem_cons_of_mem s listed)

/-- The schema goes on where it was cut short. -/
theorem run_resumed (few : i < 5) (on : env.foreign_keys = true) (ran : fresh.run env (SCHEMA_DDL.take i) = some s) :
    s.run env (SCHEMA_DDL.take j) = if j ≤ i then some s else fresh.run env (SCHEMA_DDL.take j) := by
  have shape := shapes_of_run ran
  rw [on] at shape
  have there := creates_early i few s.catalog shape
  split
  · rename_i early
    refine run_again fun s' listed => there s' ?_
    exact (List.take_prefix_take_left early).subset listed
  · rename_i late
    obtain ⟨more,split⟩ := List.take_prefix_take_left (Nat.le_of_not_le late)
    rw [← split,run_append,run_append,ran,run_again there]

/-- What openings of a new file can leave. -/
inductive Young (host : Host) (s : Database) : Prop
  | early (i : Nat) (few : i < 5) (path : String) (ran : fresh.run (host.env ⟨path,true⟩) (SCHEMA_DDL.take i) = some s)
  | stuck (stuck : Stuck s)
  | latest (version : OfVersion host CURRENT_SCHEMA_VERSION s)

/-- The opening of a file without a configuration. -/
theorem open_pool_early (few : i < 5) (ran : fresh.run (host.env ⟨path,true⟩) (SCHEMA_DDL.take i) = some s)
    (ended : Ends (open_pool host fault backup_dir) (open_connection path s) r c) (leaves : c.Leaves s') : Leftover host s path s' := by
  obtain ⟨unconfigured,_,whole,completed,complete,_⟩ := complete_early few rfl rfl ran
  rcases ends_bind.mp ended with ⟨_,m,first,rest⟩ | ⟨e,first,_⟩
  · obtain ⟨left,done,_⟩ := init_schema_completes unconfigured completed complete first
    have state := done rfl
    have version : OfVersion host 14 m.state := state ▸ complete.of_version.with_epoch
    have epoch : Reads m.state "storage_epoch" (some (toString STORAGE_EPOCH)) := state ▸ reads_with_epoch (versioned whole)
    obtain ⟨_,rfl⟩ := (ends_migrate_finished version epoch).mp rest
    exact left s' leaves
  · exact (init_schema_completes unconfigured completed complete first).1 s' leaves

theorem Young.opens (young : Young host s) (opens : Opens host s s') : Young host s' := by
  cases young with
  | early i few path ran =>
    obtain ⟨path',fault,backup_dir,r,c,ended,leaves⟩ := opens
    have ran : fresh.run (host.env ⟨path',true⟩) (SCHEMA_DDL.take i) = some s := ran
    obtain ⟨_,_,whole,completed,complete,_⟩ := complete_early few rfl rfl ran
    cases open_pool_early few ran ended leaves with
    | defining p front defined =>
      rw [List.prefix_iff_eq_take.mp front,run_resumed few rfl ran] at defined
      split at defined
      · cases defined
        exact .early i few path' ran
      · by_cases few' : p.length < 5
        · exact .early p.length few' path' defined
        · exact .stuck (stuck_late (Nat.not_lt.mp few') (Nat.lt_succ_of_le front.length_le) defined)
    | versioned whole' ran' same =>
      cases completed.symm.trans ran'
      exact .latest (same ▸ complete.of_version)
    | finished whole' ran' same =>
      cases completed.symm.trans ran'
      exact .latest (same ▸ complete.of_version.with_epoch)
  | stuck stuck =>
    obtain ⟨path,fault,backup_dir,r,c,ended,leaves⟩ := opens
    exact (stuck.opens ended).2 s' leaves ▸ .stuck stuck
  | latest version =>
    obtain ⟨j,from_last,version',_⟩ := version_of_opens le_rfl version (Kept.refl host _ s) opens
    have same : j = CURRENT_SCHEMA_VERSION := Nat.le_antisymm version'.known.2 from_last
    exact .latest (same ▸ version')

/-- A new file recovers unless it has a configuration without a version, and then no opening
    changes it. -/
theorem Young.recovers_iff (young : Young host s) :
    (Recovers host s ↔ s.catalog.tables .config = none ∨ (stored (s.rows .config) "schema_version").isSome = true) ∧ (Recovers host s ∨ Stuck s) := by
  cases young with
  | early i few path ran =>
    have recovers := recovers_early path few ran
    exact ⟨iff_of_true recovers (.inl (complete_early few rfl rfl ran).1),.inl recovers⟩
  | stuck stuck =>
    refine ⟨iff_of_false stuck.not_recovers ?_,.inr stuck⟩
    rintro (absent | known)
    · have present := stuck.present
      rw [absent] at present
      cases present
    · rw [stuck.empty] at known
      cases known
  | latest version =>
    refine ⟨iff_of_true version.recovers (.inr ?_),.inl version.recovers⟩
    rcases version.version with reads | ⟨first,_⟩
    · unfold Reads at reads
      rw [reads]
      rfl
    · cases first

theorem young_of_openings (openings : Relation.ReflTransGen (Opens host) fresh s) : Young host s := by
  induction openings with
  | refl => exact .early 0 (by decide) "" rfl
  | tail _ opens ih => exact ih.opens opens

/-- A new file goes on where its openings were cut short, unless that was between the table of
    the configuration and the row of the version: then every opening fails and changes nothing. -/
theorem new_file_recovers_iff (openings : Relation.ReflTransGen (Opens host) fresh s) :
    (Recovers host s ↔ s.catalog.tables .config = none ∨ (stored (s.rows .config) "schema_version").isSome = true) ∧
    (¬Recovers host s → ∀ path fault backup_dir r c, Ends (open_pool host fault backup_dir) (open_connection path s) r c →
      (∃ e, r = .error e) ∧ ∀ s', c.Leaves s' → s' = s) := by
  obtain ⟨exactly,either⟩ := (young_of_openings openings).recovers_iff
  exact ⟨exactly,fun lost path fault backup_dir r c ended => (either.resolve_left lost).opens ended⟩

/-- The first opening fails after the table of the configuration. -/
theorem new_file_lost : ∃ s, Opens plain_host fresh s ∧ ¬Recovers plain_host s := by
  obtain ⟨r,c,cut⟩ := ends_total (open_pool plain_host (fun n => if n = 5 then some (.Storage "disk I/O error") else none) none) (open_connection "memory.db" fresh)
  have opens : Opens plain_host fresh c.state := ⟨_,_,_,_,_,cut,.inr rfl⟩
  have unversioned : ¬(c.state.catalog.tables .config = none ∨ (stored (c.state.rows .config) "schema_version").isSome = true) := by
    rw [show c = _ from (congrArg Prod.snd cut).symm]
    decide +kernel
  exact ⟨c.state,opens,fun recovers => unversioned ((new_file_recovers_iff (.single opens)).1.mp recovers)⟩

end new
end MemoryEngine.Schema
