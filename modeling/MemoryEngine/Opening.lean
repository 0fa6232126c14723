import MemoryEngine.MigrationRuns

/-! A database of an older version is opened: it ends in the current schema, or at a version
from which the next opening goes on. -/

namespace MemoryEngine.Schema
open Relational Transaction Sessions

section reads
variable {db : Database} {read : Option String} {n : Nat}

theorem commits_stored_version (configured : Configured db.catalog) (reads : Reads db "schema_version" read)
    (parsed : parse_unsigned (2 ^ 32) (read.getD "1") = some n) : Commits stored_version db n db := by
  refine commits_bind.mpr ⟨read,db,(commits_get_config configured).mpr reads,?_⟩
  simp only [parsed]
  exact commits_pure.mpr ⟨rfl,rfl⟩

theorem commits_supported_epoch (configured : Configured db.catalog) (reads : Reads db "storage_epoch" read)
    (parsed : parse_unsigned (2 ^ 16) (read.getD "1") = some n) (supported : n ≤ STORAGE_EPOCH) : Commits supported_epoch db read db := by
  refine commits_bind.mpr ⟨read,db,(commits_get_config configured).mpr reads,?_⟩
  simp only [parsed,if_neg (Nat.not_lt.mpr supported)]
  exact commits_pure.mpr ⟨rfl,rfl⟩

theorem parse_version : ∀ v < 15, parse_unsigned (2 ^ 32) (toString v) = some v := by decide

end reads

section opening
variable {host : Host} {fault : Nat → Option MemoryError} {db : Database} {v k : Nat} {path : String} {backup_dir : Option String} {c c' : Connection}
variable {r : Except MemoryError Unit}

theorem OfVersion.commits_version (version : OfVersion host v db) : Commits stored_version db v db := by
  have high : v < 15 := Nat.lt_succ_of_le version.known.2
  have configured := (usual_of_schema v high _ version.schema).configured
  rcases version.version with reads | ⟨rfl,reads⟩
  · exact commits_stored_version configured reads (parse_version v high)
  · exact commits_stored_version configured reads (parse_version 1 high)

/-- A setting is committed, unless a fault is due. -/
theorem ends_set_config {key value : String} (configured : Configured c.state.catalog)
    (ended : Ends (autocommit host fault fun env => set_config env key value) c r c') :
    r = .ok () ∧ c' = { c.begun with state := c.state.with_rows .config (put key value (c.state.rows .config)) } ∨
    ∃ e, r = .error e ∧ c' = c.begun ∧ ∃ n, fault n = some e := by
  have committed : Commits (set_config (host.env c.settings) key value) c.state () _ := commits_set_config configured
  rcases ends_transact.mp ended with ⟨_,t,_,committed',rfl,rfl⟩ | ⟨e,due | ⟨_,failed⟩,rfl,rfl⟩
  · obtain ⟨_,rfl⟩ := committed.functional committed'
    exact .inl ⟨rfl,rfl⟩
  · exact .inr ⟨e,rfl,rfl,_,due⟩
  · rw [Commits,failed] at committed
    cases committed

/-- The database with its epoch. -/
def with_epoch (db : Database) : Database := db.with_rows .config (put "storage_epoch" (toString STORAGE_EPOCH) (db.rows .config))

theorem stored_with_epoch {key : String} (other : key ≠ "storage_epoch") : stored ((with_epoch db).rows .config) key = stored (db.rows .config) key := by
  rw [with_epoch,db.with_rows_self]
  exact stored_put_ne other

theorem OfVersion.with_epoch (version : OfVersion host 14 db) : OfVersion host 14 (with_epoch db) where
  schema := version.schema
  known := version.known
  conforms := conforms_put version.conforms
  distinct early := absurd early (by decide)
  synced third := absurd third (by decide)
  legible early := absurd early (by decide)
  version := by
    unfold Reads
    rw [stored_with_epoch (by decide)]
    exact version.version
  epoch := by
    refine ⟨some (toString STORAGE_EPOCH),?_,STORAGE_EPOCH,le_rfl,by decide⟩
    unfold Reads Schema.with_epoch
    rw [db.with_rows_self]
    exact stored_put

/-- No row had the key of the epoch. -/
theorem Kept.with_epoch {m : Database} (kept : Kept host v db 14 m) (none_yet : Reads db "storage_epoch" none) : Kept host v db 14 (with_epoch m) where
  keeps := kept.keeps.trans (Keeps.with_rows (by decide))
  config r listed unmanaged := by
    rw [Schema.with_epoch,m.with_rows_self]
    refine mem_put_of_ne (kept.config r listed unmanaged) fun same => ?_
    have absent := List.find?_eq_none.mp (Option.map_eq_none_iff.mp none_yet) r listed
    exact absent (decide_eq_true same)
  identity early := absurd early (by decide)
  lifted early late := by
    obtain ⟨retired,lifted⟩ := kept.lifted early late
    refine ⟨(stored_with_epoch (by decide)).trans retired,fun read reads => ?_⟩
    have lifted := lifted read reads
    have same : (Schema.with_epoch m).rows .embedding_spaces = m.rows .embedding_spaces := m.with_rows_ne .config _ (by decide)
    unfold Lifted at lifted ⊢
    rw [same]
    exact lifted

/-- A database without an epoch had none before. -/
theorem Kept.unstamped {m : Database} (kept : Kept host v db k m) (none_yet : Reads m "storage_epoch" none) : Reads db "storage_epoch" none := by
  refine Option.map_eq_none_iff.mpr (List.find?_eq_none.mpr fun r listed has => ?_)
  have absent := List.find?_eq_none.mp (Option.map_eq_none_iff.mp none_yet)
  have unmanaged : r .key ∉ managed := by
    rw [of_decide_eq_true has]
    decide
  exact absent r (kept.config r listed unmanaged) has

/-- The epoch of the database, if it has none. -/
theorem Holding.stamp {epoch : Option String} (holding : Holding host v db 14 c) (unstamped : epoch = none → Reads db "storage_epoch" none)
    (ended : Ends (stamp_epoch host fault epoch) c r c') : Holding host v db 14 c' ∧ ∀ e, r = .error e → ∃ n, fault n = some e := by
  cases epoch with
  | some e =>
    obtain ⟨rfl,rfl⟩ := ends_pure.mp ended
    exact ⟨holding,fun e failed => by cases failed⟩
  | none =>
    have usual := usual_of_schema 14 (by decide) _ holding.version.schema
    rcases ends_set_config usual.configured ended with ⟨rfl,rfl⟩ | ⟨e,rfl,rfl,due⟩
    · exact ⟨holding.committed le_rfl holding.version.with_epoch (holding.kept.with_epoch (unstamped rfl)),fun e failed => by cases failed⟩
    · exact ⟨holding.begun,fun e' same => by cases same; exact due⟩

/-- The disk takes the backup. -/
def Backs (host : Host) (backup_dir : Option String) (version : Nat) (c : Connection) : Prop :=
  ∀ dir ∈ backup_dir, Ends (backup_before_migration host dir version) c (.ok ()) c

theorem ends_backup {dir : String} {n : Nat} (ended : Ends (backup_before_migration host dir n) c r c') : c' = c := by
  have unfolded : (backup_before_migration host dir n).run.run c =
      if c.settings.path = "" ∨ c.settings.path = ":memory:" then (.error (.Migration "cannot backup in-memory database"),c)
      else
        let backup_path := host.join dir (host.file_name c.settings.path ++ ".v" ++ toString n ++ ".bak")
        if '\x00' ∈ backup_path.toList then (.error (.Migration "backup path contains null byte"),c)
        else ((host.backup backup_path c.state).mapError MemoryError.Migration,c) := rfl
  rw [Sessions.Ends,unfolded] at ended
  split at ended
  · cases ended
    rfl
  · simp only at ended
    split at ended <;> cases ended <;> rfl

theorem ends_backups {n : Nat} (ended : Ends (backup_dir.forM fun dir => backup_before_migration host dir n) c r c') : c' = c := by
  cases backup_dir with
  | none => exact (ends_pure.mp ended).2
  | some dir => exact ends_backup ended

/-- However `migrate` ends, the database is of a version from which the next one goes on. It
    fails only where a fault is due or the disk does not take the backup. -/
theorem Holding.migrate (holding : Holding host v db k c) (ended : Ends (migrate host fault backup_dir) c r c') :
    ∃ j, k ≤ j ∧ Holding host v db j c' ∧ (r = .ok () → j = 14) ∧
      ∀ e, r = .error e → (∃ n, fault n = some e) ∨ k < 14 ∧ ¬Backs host backup_dir k c := by
  have low := holding.version.known.1
  have high : k ≤ 14 := holding.version.known.2
  have configured := (usual_of_schema k (by omega) _ holding.version.schema).configured
  obtain ⟨epoch,reads,n,supported,parsed⟩ := holding.version.epoch
  have unstamped : epoch = none → Reads db "storage_epoch" none := by
    rintro rfl
    exact holding.kept.unstamped reads
  replace ended := (ends_read_bind (commits_supported_epoch configured reads parsed supported)).mp ((ends_read_bind holding.version.commits_version).mp ended)
  simp only [if_neg (show ¬k > CURRENT_SCHEMA_VERSION from Nat.not_lt.mpr high)] at ended
  by_cases latest : k = CURRENT_SCHEMA_VERSION
  · rw [if_pos latest] at ended
    cases latest
    obtain ⟨holding',faulty⟩ := holding.stamp unstamped ended
    exact ⟨14,le_rfl,holding',fun _ => rfl,fun e failed => .inl (faulty e failed)⟩
  · rw [if_neg latest] at ended
    have earlier : k < 14 := Nat.lt_of_le_of_ne high latest
    rcases ends_bind.mp ended with ⟨_,c₁,backed,rest⟩ | ⟨e,failed,rfl⟩
    · obtain rfl := ends_backups backed
      rcases ends_bind.mp rest with ⟨_,c₂,ran,stamped⟩ | ⟨e,ran,rfl⟩
      · obtain ⟨j,from_k,holding',complete,_⟩ := holding.run rfl le_rfl (by omega) ran
        have last := complete rfl
        subst last
        obtain ⟨holding'',faulty⟩ := holding'.stamp unstamped stamped
        exact ⟨14,from_k,holding'',fun _ => rfl,fun e failed => .inl (faulty e failed)⟩
      · obtain ⟨j,from_k,holding',complete,faulty⟩ := holding.run rfl le_rfl (by omega) ran
        exact ⟨j,from_k,holding',complete,fun e failed => .inl (faulty e failed)⟩
    · cases backup_dir with
      | none => cases (ends_pure.mp failed).1
      | some dir =>
        obtain rfl := ends_backup failed
        refine ⟨k,le_rfl,holding,fun done => (by cases done),fun e' _ => .inr ⟨earlier,fun backs => ?_⟩⟩
        cases (failed.functional (backs dir rfl)).1

end opening
end MemoryEngine.Schema
