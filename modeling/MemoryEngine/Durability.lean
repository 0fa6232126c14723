import MemoryEngine.ArchiveRace
import MemoryEngine.DurableFiles

/-! Crashes. An archival writes its file without ever syncing it, renames it into place
and commits the deletion; the sidecar of a snapshot is synced before the rename. -/

namespace MemoryEngine
open Time KeyedTable Transaction DurableFiles

/-- Compression and digest of archive files. -/
structure PakCodec where
  encode : ArchivePak → List UInt8
  decode : List UInt8 → Except MemoryError ArchivePak
  blake3 : List UInt8 → String

/-- `path.with_extension("pak.tmp")` for a name that ends in `.pak`. -/
def tmp_path (pak_filename : String) : String := pak_filename ++ ".tmp"

/-- The database, the archive directory and the facts that archivals have removed. A
    committed transaction is synced. -/
structure Vault where
  disk : Disk String UInt8
  storage : Db
  gone : List Fact

namespace Vault
variable (codec : PakCodec)

/-- The bytes under a name are a listed file with the recorded digest that holds the fact. -/
def Recovers (t : Tables) (f : Fact) (name : String) (bytes : List UInt8) : Prop :=
  ∃ m ∈ t.archive_manifest.rows, m.pak_path = name ∧ codec.blake3 bytes = m.blake3_hash ∧
    ∃ pak, codec.decode bytes = .ok pak ∧ f.id ∈ pak.facts.map Fact.id

/-- Whatever a crash leaves, each removed fact can be read back from a listed file, not
    counting the files of some names. -/
def Safe (names : List String) (v : Vault) : Prop := ∀ d, v.disk.Survives d → ∀ f ∈ v.gone,
  ∃ name bytes, d.read name = some bytes ∧ name ∉ names ∧ Recovers codec v.storage.toTables f name bytes

/-- What reading each file as an archive gives. -/
def files (d : Disk String UInt8) : PakFiles := fun name => (d.read name).bind fun bytes => (codec.decode bytes).toOption

end Vault

/-- How far an archival has come when the machine stops. -/
inductive ArchivePhase where
  | start
  | writing
  | renamed
  | committed
  /-- The temporary file is removed after a failed write. -/
  | abandoned
  /-- The file is removed after a failed commit. -/
  | discarded
deriving DecidableEq

/-- The names whose files the call has replaced. -/
def ArchivePhase.replaced (pak_filename : String) : ArchivePhase → List String
  | renamed => [pak_filename]
  | committed => [pak_filename]
  | discarded => [pak_filename]
  | _ => []

/-- The names that the call has touched. -/
def ArchivePhase.touched (pak_filename : String) : ArchivePhase → List String
  | start => []
  | writing => [tmp_path pak_filename]
  | abandoned => [tmp_path pak_filename]
  | _ => [tmp_path pak_filename,pak_filename]

/-- The points at which the machine can stop during an archival of what it found.
    `create_new` refuses a temporary file that exists, and numbers a new file. -/
inductive ArchiveCrash (codec : PakCodec) (self : SqliteBackend) (found : List Fact × List Edge) (pak_filename : String) (file : Nat)
    (now : DateTime) (v : Vault) : ArchivePhase → Vault → Prop where
  | start : ArchiveCrash codec self found pak_filename file now v .start v
  | create (absent : v.disk.entries (tmp_path pak_filename) = none) (unused : v.disk.Unused file) :
      ArchiveCrash codec self found pak_filename file now v .writing { v with disk := v.disk.apply (.create (tmp_path pak_filename) file) }
  | append {v' : Vault} (before : ArchiveCrash codec self found pak_filename file now v .writing v') (bytes : List UInt8) :
      ArchiveCrash codec self found pak_filename file now v .writing { v' with disk := v'.disk.apply (.append file bytes) }
  | abandon {v' : Vault} (before : ArchiveCrash codec self found pak_filename file now v .writing v') :
      ArchiveCrash codec self found pak_filename file now v .abandoned { v' with disk := v'.disk.apply (.remove (tmp_path pak_filename)) }
  | rename {v' : Vault} (before : ArchiveCrash codec self found pak_filename file now v .writing v')
      (whole : v'.disk.written file = codec.encode (Archive.build_pak self found)) :
      ArchiveCrash codec self found pak_filename file now v .renamed
        { v' with disk := v'.disk.apply (.rename (tmp_path pak_filename) pak_filename) }
  | discard {v' : Vault} (before : ArchiveCrash codec self found pak_filename file now v .renamed v') :
      ArchiveCrash codec self found pak_filename file now v .discarded { v' with disk := v'.disk.apply (.remove pak_filename) }
  | commit {v' : Vault} {db : Db} (before : ArchiveCrash codec self found pak_filename file now v .renamed v')
      (committed : Commits (Archive.commit_archive_atomic (Archive.manifest pak_filename found.1 found.2
        (codec.encode (Archive.build_pak self found)).length (codec.blake3 (codec.encode (Archive.build_pak self found))) now)
          (found.1.map Fact.id)) v'.storage () db) :
      ArchiveCrash codec self found pak_filename file now v .committed
        { v' with
          storage := db
          gone := v'.gone ++ v'.storage.facts.rows.filter fun f => (found.1.map Fact.id).contains f.id }

/-- How far the sidecar has come. -/
inductive SidecarPhase where
  | start
  | writing
  | synced
  | renamed
  | durable
  | abandoned

/-- The points at which the machine can stop during `write_to_file`: a new temporary
    file in the same directory, its sync, the rename and the sync of the directory. -/
inductive SidecarCrash (tmp path : String) (file : Nat) (bytes : List UInt8) (d : Disk String UInt8) :
    SidecarPhase → Disk String UInt8 → Prop where
  | start : SidecarCrash tmp path file bytes d .start d
  | create (apart : tmp ≠ path) (unused : d.Unused file) : SidecarCrash tmp path file bytes d .writing (d.apply (.create tmp file))
  | append {d' : Disk String UInt8} (before : SidecarCrash tmp path file bytes d .writing d') (chunk : List UInt8) :
      SidecarCrash tmp path file bytes d .writing (d'.apply (.append file chunk))
  | sync_all {d' : Disk String UInt8} (before : SidecarCrash tmp path file bytes d .writing d') (whole : d'.written file = bytes) :
      SidecarCrash tmp path file bytes d .synced (d'.apply (.sync file))
  | persist {d' : Disk String UInt8} (before : SidecarCrash tmp path file bytes d .synced d') :
      SidecarCrash tmp path file bytes d .renamed (d'.apply (.rename tmp path))
  | sync_dir {d' : Disk String UInt8} (before : SidecarCrash tmp path file bytes d .renamed d') :
      SidecarCrash tmp path file bytes d .durable (d'.apply .syncDir)
  | abandon {d' : Disk String UInt8} {phase : SidecarPhase} (before : SidecarCrash tmp path file bytes d phase d')
      (pending : phase = .writing ∨ phase = .synced) : SidecarCrash tmp path file bytes d .abandoned (d'.apply (.remove tmp))

/-- Of these names a crash can leave a file of which nothing was synced, or none. -/
def Shaky (d : Disk String UInt8) (names : List String) : Prop :=
  ∀ name ∈ names, ∃ file, d.Leads name file ∧ ∀ number, file = some number → d.synced number = []

theorem tmp_path_ne (pak_filename : String) : tmp_path pak_filename ≠ pak_filename := by
  intro same
  have lengths := congrArg String.length same
  rw [tmp_path,String.length_append] at lengths
  have dot : ".tmp".length = 4 := by decide
  omega

namespace ArchiveCrash
variable {codec : PakCodec} {self : SqliteBackend} {found : List Fact × List Edge} {pak_filename : String} {file : Nat} {now : DateTime}
  {v v' : Vault} {phase : ArchivePhase}

/-- What the call has done to the disk: nothing beyond the names it touched, and those
    are shaky. -/
structure Tracks (pak_filename : String) (file : Nat) (v : Vault) (phase : ArchivePhase) (v' : Vault) : Prop where
  unused : phase ≠ .start → v.disk.Unused file ∧ v.disk.entries (tmp_path pak_filename) = none
  spares : Disk.Spares file (phase.touched pak_filename) v.disk v'.disk
  shaky : Shaky v'.disk (phase.touched pak_filename)
  unsynced : phase ≠ .start → v'.disk.synced file = []
  temporary : phase = .writing → v'.disk.entries (tmp_path pak_filename) = some file
  replaced : phase = .renamed → v'.disk.entries pak_filename = some file ∧ v'.disk.entries (tmp_path pak_filename) = none

theorem tracks (crash : ArchiveCrash codec self found pak_filename file now v phase v') : Tracks pak_filename file v phase v' := by
  have apart := tmp_path_ne pak_filename
  induction crash with
  | start => exact ⟨by simp,.refl _ _ _,by simp [Shaky,ArchivePhase.touched],by simp,by simp,by simp⟩
  | create absent unused =>
    have spares : Disk.Spares file [tmp_path pak_filename] v.disk (v.disk.apply (.create (tmp_path pak_filename) file)) :=
      Disk.spares_apply _ _ ⟨List.mem_singleton_self (tmp_path pak_filename),rfl⟩
    refine ⟨fun _ => ⟨unused,absent⟩,spares,?_,?_,?_,by simp⟩
    · intro name member
      rw [List.mem_singleton.mp member]
      refine ⟨some file,.inl (by simp [Disk.apply]),?_⟩
      rintro _ ⟨⟩
      simp [Disk.apply]
    · simp [Disk.apply]
    · simp [Disk.apply]
  | @append m before bytes ih =>
    have spares : Disk.Spares file [tmp_path pak_filename] m.disk (m.disk.apply (.append file bytes)) := Disk.spares_apply _ _ rfl
    exact ⟨ih.unused,ih.spares.trans spares,ih.shaky,ih.unsynced,ih.temporary,by simp⟩
  | @abandon m before ih =>
    have spares : Disk.Spares file [tmp_path pak_filename] m.disk (m.disk.apply (.remove (tmp_path pak_filename))) :=
      Disk.spares_apply _ _ (List.mem_singleton_self (tmp_path pak_filename))
    refine ⟨fun _ => ih.unused (by simp),ih.spares.trans spares,?_,fun _ => ih.unsynced (by simp),by simp,by simp⟩
    intro name member
    rw [List.mem_singleton.mp member]
    exact ⟨none,.inl (by simp [Disk.apply]),by simp⟩
  | @rename m before whole ih =>
    have named := ih.temporary rfl
    have unsynced := ih.unsynced (by simp)
    have first : Disk.Spares file [tmp_path pak_filename,pak_filename] v.disk m.disk := ih.spares.mono (by simp [ArchivePhase.touched])
    have second : Disk.Spares file [tmp_path pak_filename,pak_filename] m.disk (m.disk.apply (.rename (tmp_path pak_filename) pak_filename)) :=
      Disk.spares_apply _ _ (by simp [Command.About])
    have moved : (m.disk.apply (.rename (tmp_path pak_filename) pak_filename)).entries pak_filename = some file ∧
        (m.disk.apply (.rename (tmp_path pak_filename) pak_filename)).entries (tmp_path pak_filename) = none := by
      simp [Disk.apply,apart.symm,named]
    refine ⟨fun _ => ih.unused (by simp),first.trans second,?_,fun _ => unsynced,by simp,fun _ => moved⟩
    intro name member
    rcases List.mem_cons.mp member with rfl | rest
    · exact ⟨none,.inl moved.2.symm,by simp⟩
    · rw [List.mem_singleton.mp rest]
      refine ⟨some file,.inl moved.1.symm,?_⟩
      rintro _ ⟨⟩
      exact unsynced
  | @discard m before ih =>
    obtain ⟨_,cleared⟩ := ih.replaced rfl
    have spares : Disk.Spares file [tmp_path pak_filename,pak_filename] m.disk (m.disk.apply (.remove pak_filename)) :=
      Disk.spares_apply _ _ (by simp [Command.About])
    refine ⟨fun _ => ih.unused (by simp),ih.spares.trans spares,?_,fun _ => ih.unsynced (by simp),by simp,by simp⟩
    intro name member
    refine ⟨none,.inl ?_,by simp⟩
    rcases List.mem_cons.mp member with rfl | rest
    · simp [Disk.apply,apart,cleared]
    · rw [List.mem_singleton.mp rest]
      simp [Disk.apply]
  | commit before committed ih =>
    exact ⟨fun _ => ih.unused (by simp),ih.spares,ih.shaky,fun _ => ih.unsynced (by simp),by simp,by simp⟩

/-- What the call has done to the database. -/
theorem stored (crash : ArchiveCrash codec self found pak_filename file now v phase v') :
    (phase ≠ .committed ∧ v'.storage = v.storage ∧ v'.gone = v.gone) ∨ (phase = .committed ∧
      v'.gone = v.gone ++ v.storage.facts.rows.filter (fun f => (found.1.map Fact.id).contains f.id) ∧
        ∃ entry : NewArchiveManifest, entry.pak_path = pak_filename ∧
          v'.storage.toTables = Archive.archived entry (found.1.map Fact.id) v.storage.toTables) := by
  induction crash with
  | start => exact .inl ⟨by simp,rfl,rfl⟩
  | create => exact .inl ⟨by simp,rfl,rfl⟩
  | append before bytes ih => exact .inl ⟨by simp,(ih.resolve_right (by simp)).2⟩
  | abandon before ih => exact .inl ⟨by simp,(ih.resolve_right (by simp)).2⟩
  | rename before whole ih => exact .inl ⟨by simp,(ih.resolve_right (by simp)).2⟩
  | discard before ih => exact .inl ⟨by simp,(ih.resolve_right (by simp)).2⟩
  | commit before committed ih =>
    obtain ⟨_,storage,gone⟩ := ih.resolve_right (by simp)
    rw [storage] at committed
    refine .inr ⟨rfl,?_,_,rfl,Archive.commits_commit_archive committed⟩
    rw [gone,storage]

end ArchiveCrash

namespace SidecarCrash
variable {tmp path : String} {file : Nat} {bytes : List UInt8} {d d' : Disk String UInt8} {phase : SidecarPhase}

/-- The path leads to what it led to before, or to the complete new file. -/
structure Tracks (tmp path : String) (file : Nat) (bytes : List UInt8) (d : Disk String UInt8) (phase : SidecarPhase)
    (d' : Disk String UInt8) : Prop where
  unused : phase ≠ .start → d.Unused file
  synced : ∀ number ≠ file, d'.synced number = d.synced number
  leads : ∀ number, d'.Leads path number → d.Leads path number ∨ (number = some file ∧ d'.synced file = bytes)
  temporary : phase = .writing ∨ phase = .synced → d'.entries tmp = some file ∧ tmp ≠ path
  whole : phase = .synced → d'.synced file = bytes

theorem tracks (crash : SidecarCrash tmp path file bytes d phase d') : Tracks tmp path file bytes d phase d' := by
  induction crash with
  | start => exact ⟨by simp,fun _ _ => rfl,fun _ leads => .inl leads,by simp,by simp⟩
  | create apart unused =>
    have spares : Disk.Spares file [tmp] d (d.apply (.create tmp file)) := Disk.spares_apply _ _ ⟨List.mem_singleton_self tmp,rfl⟩
    refine ⟨fun _ => unused,spares.synced,fun number leads => ?_,fun _ => ⟨by simp [Disk.apply],apart⟩,by simp⟩
    exact .inl ((spares.leads path (by simpa using apart.symm) number).mp leads)
  | append before chunk ih => exact ⟨ih.unused,ih.synced,ih.leads,ih.temporary,by simp⟩
  | @sync_all m before whole ih =>
    have named := ih.temporary (.inl rfl)
    have now_whole : (m.apply (.sync file)).synced file = bytes := by simpa [Disk.apply] using whole
    refine ⟨fun _ => ih.unused (by simp),fun number other => ?_,fun number leads => ?_,fun _ => named,fun _ => now_whole⟩
    · have spares : Disk.Spares file [tmp] m (m.apply (.sync file)) := Disk.spares_apply _ _ rfl
      exact (spares.synced number other).trans (ih.synced number other)
    · rcases ih.leads number leads with old | ⟨new,_⟩
      · exact .inl old
      · exact .inr ⟨new,now_whole⟩
  | @persist m before ih =>
    obtain ⟨named,apart⟩ := ih.temporary (.inr rfl)
    have whole := ih.whole rfl
    refine ⟨fun _ => ih.unused (by simp),ih.synced,fun number leads => ?_,by simp,by simp⟩
    rcases leads with here | there
    · exact .inr ⟨by simpa [Disk.apply,apart.symm,named] using here,whole⟩
    · exact ih.leads number (.inr there)
  | sync_dir before ih =>
    refine ⟨fun _ => ih.unused (by simp),ih.synced,fun number leads => ?_,by simp,by simp⟩
    exact ih.leads number (.inl (leads.elim (fun here => here) fun here => here))
  | @abandon m phase before pending ih =>
    obtain ⟨named,apart⟩ := ih.temporary pending
    refine ⟨fun _ => ih.unused (by rcases pending with rfl | rfl <;> simp),ih.synced,fun number leads => ?_,by simp,by simp⟩
    have spares : Disk.Spares file [tmp] m (m.apply (.remove tmp)) := Disk.spares_apply _ _ (List.mem_singleton_self tmp)
    exact ih.leads number ((spares.leads path (by simpa using apart.symm) number).mp leads)

end SidecarCrash

namespace Sample

end Sample

end MemoryEngine
