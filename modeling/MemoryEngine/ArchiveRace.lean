import MemoryEngine.ArchiveLoss
import MemoryEngine.CacheRace
import MemoryEngine.Fingerprint
import MemoryEngine.PinRace

/-! Two archivals at once. Each selects its candidates, writes its file and commits;
the commit neither reads the candidates again nor counts what it deletes, so a fact
that both have selected ends up in both files. -/

namespace MemoryEngine
open Time KeyedTable Transaction
open CacheRace (Side)

/-- The archives of the directory, by file name. -/
abbrev PakFiles := String → Option ArchivePak

/-- How far a call has come. -/
inductive ArchiveTask where
  | ready
  | skipped
  | selected (found : List Fact × List Edge)
  | written (found : List Fact × List Edge) (entry : NewArchiveManifest)
  | committed (found : List Fact × List Edge) (entry : NewArchiveManifest) (removed : List Fact)

namespace ArchiveTask

def found : ArchiveTask → Option (List Fact × List Edge)
  | selected found => some found
  | written found _ => some found
  | committed found _ _ => some found
  | _ => none

/-- The file that the call has written, with its manifest row. -/
def file : ArchiveTask → Option ((List Fact × List Edge) × NewArchiveManifest)
  | written found entry => some (found,entry)
  | committed found entry _ => some (found,entry)
  | _ => none

/-- The ids that the call has deleted or meant to delete. -/
def gone : ArchiveTask → List FactId
  | committed found _ _ => found.1.map Fact.id
  | _ => []

/-- The rows that the call deleted. -/
def removed : ArchiveTask → List Fact
  | committed _ _ removed => removed
  | _ => []

def IsCommitted : ArchiveTask → Prop
  | committed _ _ _ => True
  | _ => False

/-- The call has returned without an error. -/
def Succeeded : ArchiveTask → Prop
  | skipped => True
  | committed _ _ _ => True
  | _ => False

end ArchiveTask

inductive ArchiveStep where
  | select
  | write
  | commit
deriving DecidableEq

/-- The store, the files and the two calls. -/
structure Shelf where
  storage : Db
  files : PakFiles
  task : Side → ArchiveTask

namespace Shelf

def moved (sys : Shelf) (i : Side) (task : ArchiveTask) : Shelf := { sys with task := Function.update sys.task i task }

/-- One step of one call. A file that is written replaces one of the same name. -/
inductive Step (self : SqliteBackend) (policy : Side → ArchivePolicy) : Shelf → Side × ArchiveStep → Shelf → Prop where
  | skip {sys : Shelf} {i : Side} {found : List Fact × List Edge} {db : Db} (turn : sys.task i = .ready)
      (selected : Commits (Archive.select_archive_candidates self (policy i).expired_before) sys.storage found db)
      (few : found.1.length < (policy i).min_facts) : Step self policy sys (i,.select) (sys.moved i .skipped)
  | select {sys : Shelf} {i : Side} {found : List Fact × List Edge} {db : Db} (turn : sys.task i = .ready)
      (selected : Commits (Archive.select_archive_candidates self (policy i).expired_before) sys.storage found db)
      (enough : ¬ found.1.length < (policy i).min_facts) : Step self policy sys (i,.select) (sys.moved i (.selected found))
  | write {sys : Shelf} {i : Side} {found : List Fact × List Edge} (turn : sys.task i = .selected found) (pak_filename : String)
      (pak_size_bytes : Int) (blake3_hash : String) (now : DateTime) : Step self policy sys (i,.write)
        { sys.moved i (.written found (Archive.manifest pak_filename found.1 found.2 pak_size_bytes blake3_hash now)) with
          files := Function.update sys.files pak_filename (some (Archive.build_pak self found)) }
  | commit {sys : Shelf} {i : Side} {found : List Fact × List Edge} {entry : NewArchiveManifest} {db : Db}
      (turn : sys.task i = .written found entry)
      (committed : Commits (Archive.commit_archive_atomic entry (found.1.map Fact.id)) sys.storage () db) : Step self policy sys (i,.commit)
        { sys.moved i (.committed found entry (sys.storage.facts.rows.filter fun f => (found.1.map Fact.id).contains f.id)) with
          storage := db }

/-- A run of the two calls, with the steps it took. -/
inductive Run (self : SqliteBackend) (policy : Side → ArchivePolicy) (start : Shelf) : List (Side × ArchiveStep) → Shelf → Prop where
  | start : Run self policy start [] start
  | step {history : List (Side × ArchiveStep)} {event : Side × ArchiveStep} {m t : Shelf} (before : Run self policy start history m)
      (step : Step self policy m event t) : Run self policy start (history ++ [event]) t

/-- The file of the row holds the fact. -/
def Holds (files : PakFiles) (m : ArchiveManifestEntry) (f : Fact) : Prop :=
  ∃ pak, files m.pak_path = some pak ∧ f.id ∈ pak.facts.map Fact.id

/-- Each removed fact is in exactly one listed file, and the rows count what was deleted. -/
structure Consistent (sys : Shelf) : Prop where
  once : ∀ i, ∀ f ∈ (sys.task i).removed, ∃! m, m ∈ sys.storage.archive_manifest.rows ∧ Holds sys.files m f
  counts : ∀ i found entry removed, sys.task i = .committed found entry removed →
    ∀ m ∈ sys.storage.archive_manifest.rows, m.pak_path = entry.pak_path → m.fact_count = removed.length

/-- The call selected after the other one had committed. -/
def Late (i : Side) (history : List (Side × ArchiveStep)) : Prop := List.Sublist [(!i,.commit),(i,.select)] history

end Shelf

/-- No fact of a listed file is in the store. -/
def Shelved (t : Tables) (files : PakFiles) : Prop :=
  ∀ m ∈ t.archive_manifest.rows, ∀ pak, files m.pak_path = some pak → ∀ f ∈ pak.facts, f.id ≤ t.facts.seq ∧ ¬ t.facts.Has f.id

/-- What a database and its archive directory can be: no file is listed at first; then
    come calls of the port, archivals of facts selected at some time before their
    commit, and files that no row lists. -/
inductive Past : Db → PakFiles → Prop where
  | unlisted {s : Db} {files : PakFiles} (none : s.archive_manifest.rows = []) : Past s files
  | write {s t : Db} {files : PakFiles} (before : Past s files) (self : SqliteBackend) (call : PortWrite)
      (committed : Commits (call.run self) s () t) (fewer : t.archive_manifest.rows ⊆ s.archive_manifest.rows) : Past t files
  | archived {s t : Db} {files : PakFiles} (before : Past s files) (self : SqliteBackend) (found : List Fact × List Edge)
      (entry : NewArchiveManifest) (old : ∀ f ∈ found.1, f.id ≤ s.facts.seq)
      (committed : Commits (Archive.commit_archive_atomic entry (found.1.map Fact.id)) s () t) :
      Past t (Function.update files entry.pak_path (some (Archive.build_pak self found)))
  | touched {s : Db} {files files' : PakFiles} (before : Past s files)
      (kept : ∀ m ∈ s.archive_manifest.rows, files' m.pak_path = files m.pak_path ∨ files' m.pak_path = none) : Past s files'

theorem mem_archived_facts {entry : NewArchiveManifest} {fact_ids : List FactId} {t : Tables} {f : Fact} :
    f ∈ (Archive.archived entry fact_ids t).facts.rows ↔ f ∈ t.facts.rows ∧ f.id ∉ fact_ids := by
  change f ∈ (t.facts.delete _).rows ↔ _
  rw [Table.mem_delete]
  simp

theorem mem_archived_manifest {entry : NewArchiveManifest} {fact_ids : List FactId} {t : Tables} {m : ArchiveManifestEntry} :
    m ∈ (Archive.archived entry fact_ids t).archive_manifest.rows ↔
      m ∈ t.archive_manifest.rows ∨ m = ArchiveManifestStore.newRow entry t.archive_manifest.nextId := by
  change m ∈ (t.archive_manifest.insert _ (ArchiveManifestStore.newRow_key entry)).rows ↔ _
  exact Table.mem_insert

/-- A file is recorded under a new name. -/
theorem Archive.fresh_name {entry : NewArchiveManifest} {fact_ids : List FactId} {s t : Db}
    (committed : Commits (commit_archive_atomic entry fact_ids) s () t) {m : ArchiveManifestEntry}
    (listed : m ∈ s.archive_manifest.rows) : m.pak_path ≠ entry.pak_path := by
  intro same
  exact (commit_archive_atomic_iff.mp ⟨t,committed⟩).1 (same ▸ List.mem_map_of_mem listed)

/-- A listed file keeps its facts out of the store, whatever happened. -/
theorem Past.shelved {s : Db} {files : PakFiles} (past : Past s files) : Shelved s.toTables files := by
  induction past with
  | unlisted none =>
    intro m listed
    rw [none] at listed
    cases listed
  | @write s t files before self call committed fewer ih =>
    have ages := PortWrite.ages self committed
    intro m listed pak filed f member
    obtain ⟨low,absent⟩ := ih m (fewer listed) pak filed f member
    exact ⟨low.trans ages.facts.seq,ages.facts.not_has low absent⟩
  | @archived s t files before self found entry old committed ih =>
    have called : Commits ((PortWrite.commit_archive_atomic entry (found.1.map Fact.id)).run self) s () t := committed
    have ages := PortWrite.ages self called
    have contents := Archive.commits_commit_archive committed
    intro m listed pak filed f member
    rw [contents,mem_archived_manifest] at listed
    rcases listed with earlier | rfl
    · rw [Function.update_of_ne (Archive.fresh_name committed earlier)] at filed
      obtain ⟨low,absent⟩ := ih m earlier pak filed f member
      exact ⟨low.trans ages.facts.seq,ages.facts.not_has low absent⟩
    · have same : some (Archive.build_pak self found) = some pak := by
        rw [← filed]
        exact (Function.update_self entry.pak_path _ files).symm
      cases same
      have low := old f member
      refine ⟨low.trans ages.facts.seq,?_⟩
      rintro ⟨g,kept,keyed⟩
      rw [contents,mem_archived_facts] at kept
      have named : g.id = f.id := keyed
      exact kept.2 (named ▸ List.mem_map_of_mem member)
  | touched before kept ih =>
    intro m listed pak filed
    rcases kept m listed with same | gone
    · exact ih m listed pak (same ▸ filed)
    · rw [gone] at filed
      cases filed

/-- What a call has selected of the facts at the start, given whether it selected late
    and what the other call has deleted. -/
structure ArchiveTask.Fits (policy : ArchivePolicy) (rows : List Fact) (late : Prop) (deleted : List FactId) (task : ArchiveTask) : Prop where
  skipped : task = .skipped → late ∨ rows.countP (Fact.archivable policy.expired_before) < policy.min_facts
  nodup : ∀ found ∈ task.found, found.1.Nodup
  member : ∀ found ∈ task.found, ∀ f ∈ found.1, f ∈ rows ∧ f.archivable policy.expired_before = true
  early : ¬ late → ∀ found ∈ task.found, found.1 = rows.filter (Fact.archivable policy.expired_before) ∧ policy.min_facts ≤ found.1.length
  late : late → ∀ found ∈ task.found, ∀ f ∈ found.1, f.id ∉ deleted

/-- A call that holds no selection. -/
theorem ArchiveTask.fits_empty {policy : ArchivePolicy} {rows : List Fact} {late : Prop} {deleted : List FactId} {task : ArchiveTask}
    (empty : task.found = none) (skipped : task = .skipped → late ∨ rows.countP (Fact.archivable policy.expired_before) < policy.min_facts) :
    task.Fits policy rows late deleted := by
  have nothing : ∀ found, found ∉ task.found := by
    intro found here
    rw [empty] at here
    cases here
  refine ⟨skipped,?_,?_,?_,?_⟩
  · exact fun found here => absurd here (nothing found)
  · exact fun found here => absurd here (nothing found)
  · exact fun _ found here => absurd here (nothing found)
  · exact fun _ found here => absurd here (nothing found)

namespace Shelf
variable {self : SqliteBackend} {policy : Side → ArchivePolicy} {start sys : Shelf} {history : List (Side × ArchiveStep)}

@[simp] theorem moved_storage (sys : Shelf) (i : Side) (task : ArchiveTask) : (sys.moved i task).storage = sys.storage := rfl

@[simp] theorem moved_files (sys : Shelf) (i : Side) (task : ArchiveTask) : (sys.moved i task).files = sys.files := rfl

theorem moved_own (sys : Shelf) (i : Side) (task : ArchiveTask) : (sys.moved i task).task i = task := by
  simp [moved]

theorem moved_other {sys : Shelf} {i j : Side} {task : ArchiveTask} (other : j ≠ i) : (sys.moved i task).task j = sys.task j := by
  simp [moved,other]

theorem late_append {i : Side} {event : Side × ArchiveStep} :
    Late i (history ++ [event]) ↔ Late i history ∨ event = (i,.select) ∧ (!i,.commit) ∈ history := by
  constructor
  · intro late
    obtain ⟨first,last,cut,before,after⟩ := List.sublist_append_iff.mp late
    rcases List.sublist_singleton.mp after with rfl | rfl
    · rw [List.append_nil] at cut
      exact .inl (by rwa [Late,cut])
    · obtain ⟨rfl,same⟩ : [(!i,ArchiveStep.commit)] = first ∧ [(i,.select)] = [event] := List.append_inj' cut rfl
      exact .inr ⟨(List.cons.inj same).1.symm,List.singleton_sublist.mp before⟩
  · rintro (late | ⟨rfl,committed⟩)
    · exact late.trans (List.sublist_append_left _ _)
    · exact List.Sublist.append (List.singleton_sublist.mpr committed) (List.Sublist.refl [(i,ArchiveStep.select)])

theorem Late.committed {i : Side} (late : Late i history) : (!i,.commit) ∈ history := late.subset List.mem_cons_self

/-- What the store has lost since the start and what each call has selected. -/
structure Tracks (policy : Side → ArchivePolicy) (start sys : Shelf) (history : List (Side × ArchiveStep)) : Prop where
  commits : ∀ i, (i,.commit) ∈ history ↔ (sys.task i).IsCommitted
  whole : (∀ i, ¬ (sys.task i).IsCommitted) → sys.storage.facts = start.storage.facts
  left : ∀ f ∈ sys.storage.facts.rows, f ∈ start.storage.facts.rows ∧ ∀ i, f.id ∉ (sys.task i).gone
  swept : ∀ f ∈ start.storage.facts.rows, f ∈ sys.storage.facts.rows ∨ ∃ i, f ∈ (sys.task i).removed
  removed : ∀ i, (sys.task i).removed.Nodup ∧ ∀ found ∈ (sys.task i).found, ∀ f ∈ (sys.task i).removed, f ∈ found.1
  fits : ∀ i, (sys.task i).Fits (policy i) start.storage.facts.rows (Late i history) (sys.task (!i)).gone

theorem not_committed {task : ArchiveTask} (pending : ¬ task.IsCommitted) : task.gone = [] ∧ task.removed = [] := by
  cases task with
  | committed found entry removed => exact absurd trivial pending
  | _ => exact ⟨rfl,rfl⟩

/-- A step that writes nothing to the store. -/
theorem Tracks.move (tracks : Tracks policy start sys history) {i : Side} {kind : ArchiveStep} {task : ArchiveTask} (quiet : kind ≠ .commit)
    (before : ¬ (sys.task i).IsCommitted) (after : ¬ task.IsCommitted) (fits : task.Fits (policy i) start.storage.facts.rows
      (Late i (history ++ [(i,kind)])) (sys.task (!i)).gone) : Tracks policy start (sys.moved i task) (history ++ [(i,kind)]) := by
  have gone : ∀ j, ((sys.moved i task).task j).gone = (sys.task j).gone := by
    intro j
    by_cases own : j = i
    · subst own
      rw [moved_own,(not_committed before).1,(not_committed after).1]
    · rw [moved_other own]
  have removed : ∀ j, ((sys.moved i task).task j).removed = (sys.task j).removed := by
    intro j
    by_cases own : j = i
    · subst own
      rw [moved_own,(not_committed before).2,(not_committed after).2]
    · rw [moved_other own]
  have committed : ∀ j, ((sys.moved i task).task j).IsCommitted ↔ (sys.task j).IsCommitted := by
    intro j
    by_cases own : j = i
    · subst own
      rw [moved_own]
      exact iff_of_false after before
    · rw [moved_other own]
  refine ⟨?_,?_,?_,?_,?_,?_⟩
  · intro j
    rw [committed,← tracks.commits]
    simp [quiet.symm]
  · intro none
    exact tracks.whole fun j => (committed j).not.mp (none j)
  · intro f member
    obtain ⟨old,kept⟩ := tracks.left f member
    refine ⟨old,fun j => ?_⟩
    rw [gone]
    exact kept j
  · intro f member
    simp only [removed]
    exact tracks.swept f member
  · intro j
    rw [removed]
    by_cases own : j = i
    · subst own
      rw [(not_committed before).2]
      exact ⟨List.nodup_nil,fun _ _ f member => absurd member List.not_mem_nil⟩
    · rw [moved_other own]
      exact tracks.removed j
  · intro j
    rw [gone]
    by_cases own : j = i
    · subst own
      rw [moved_own]
      exact fits
    · rw [moved_other own]
      have same : Late j (history ++ [(i,kind)]) ↔ Late j history := by
        rw [late_append]
        refine or_iff_left ?_
        rintro ⟨event,_⟩
        exact own (Prod.mk.inj event).1.symm
      rw [same]
      exact tracks.fits j

/-- Before its own commit, a call that is not late finds the store as it was. -/
theorem Tracks.facts_of_early (tracks : Tracks policy start sys history) {i : Side} (before : ¬ (sys.task i).IsCommitted)
    (early : ¬ Late i (history ++ [(i,.select)])) : sys.storage.facts = start.storage.facts := by
  refine tracks.whole fun j committed => ?_
  by_cases own : j = i
  · exact before (own ▸ committed)
  · have other : j = !i := Bool.eq_not_of_ne own
    exact early (late_append.mpr (.inr ⟨rfl,(tracks.commits _).mpr (other ▸ committed)⟩))

/-- What a selection finds fits. -/
theorem Tracks.selected (tracks : Tracks policy start sys history) {i : Side} (before : ¬ (sys.task i).IsCommitted)
    {found : List Fact × List Edge} {db : Db}
    (selected : Commits (Archive.select_archive_candidates self (policy i).expired_before) sys.storage found db)
    (enough : ¬ found.1.length < (policy i).min_facts) : (ArchiveTask.selected found).Fits (policy i) start.storage.facts.rows
      (Late i (history ++ [(i,.select)])) (sys.task (!i)).gone := by
  obtain ⟨rfl,found_rows⟩ := PinRace.commits_select_archive_candidates selected
  refine ⟨?_,?_,?_,?_,?_⟩
  · intro skipped
    cases skipped
  · rintro _ ⟨⟩
    rw [found_rows]
    exact sys.storage.facts.rows_nodup.filter _
  · rintro _ ⟨⟩ f member
    rw [found_rows] at member
    obtain ⟨held,archivable⟩ := List.mem_filter.mp member
    exact ⟨(tracks.left f held).1,archivable⟩
  · rintro early _ ⟨⟩
    rw [← tracks.facts_of_early before early,found_rows]
    exact ⟨rfl,Nat.le_of_not_lt (found_rows ▸ enough)⟩
  · rintro _ _ ⟨⟩ f member
    rw [found_rows] at member
    exact (tracks.left f (List.mem_filter.mp member).1).2 (!i)

/-- A commit deletes the selected facts that are still there. -/
theorem Tracks.commit (tracks : Tracks policy start sys history) {i : Side} {found : List Fact × List Edge} {entry : NewArchiveManifest}
    {db : Db} (turn : sys.task i = .written found entry)
    (committed : Commits (Archive.commit_archive_atomic entry (found.1.map Fact.id)) sys.storage () db) :
    Tracks policy start { sys.moved i (.committed found entry (sys.storage.facts.rows.filter fun f => (found.1.map Fact.id).contains f.id)) with
      storage := db } (history ++ [(i,.commit)]) := by
  have contents := Archive.commits_commit_archive committed
  have held : ∀ f : Fact, f ∈ db.facts.rows ↔ f ∈ sys.storage.facts.rows ∧ f.id ∉ found.1.map Fact.id := by
    intro f
    rw [contents]
    exact mem_archived_facts
  have mine := tracks.fits i
  rw [turn] at mine
  have late_same : ∀ j, Late j (history ++ [(i,ArchiveStep.commit)]) ↔ Late j history := by
    intro j
    rw [late_append]
    refine or_iff_left ?_
    rintro ⟨event,_⟩
    cases event
  refine ⟨?_,?_,?_,?_,?_,?_⟩
  · intro j
    rw [List.mem_append,List.mem_singleton,tracks.commits]
    by_cases own : j = i
    · subst own
      simp [moved_own,ArchiveTask.IsCommitted]
    · simp [moved_other own,own]
  · intro none
    exact absurd (by rw [moved_own]; trivial) (none i)
  · intro f member
    obtain ⟨before,kept⟩ := (held f).mp member
    obtain ⟨old,apart⟩ := tracks.left f before
    refine ⟨old,fun j => ?_⟩
    by_cases own : j = i
    · subst own
      rw [moved_own]
      exact kept
    · rw [moved_other own]
      exact apart j
  · intro f member
    rcases tracks.swept f member with here | ⟨j,removed⟩
    · by_cases listed : f.id ∈ found.1.map Fact.id
      · refine .inr ⟨i,?_⟩
        rw [moved_own]
        exact List.mem_filter.mpr ⟨here,List.contains_iff_mem.mpr listed⟩
      · exact .inl ((held f).mpr ⟨here,listed⟩)
    · refine .inr ⟨j,?_⟩
      by_cases own : j = i
      · subst own
        rw [turn] at removed
        cases removed
      · rwa [moved_other own]
  · intro j
    by_cases own : j = i
    · subst own
      rw [moved_own]
      refine ⟨sys.storage.facts.rows_nodup.filter _,?_⟩
      rintro _ ⟨⟩ f member
      obtain ⟨here,listed⟩ := List.mem_filter.mp member
      obtain ⟨g,selected,same⟩ := List.mem_map.mp (List.contains_iff_mem.mp listed)
      have old := (tracks.left f here).1
      rwa [← start.storage.facts.key_unique (mine.member found rfl g selected).1 old same]
    · rw [moved_other own]
      exact tracks.removed j
  · intro j
    rw [late_same]
    by_cases own : j = i
    · subst own
      rw [moved_own,moved_other (Bool.not_ne_self j)]
      refine ⟨?_,mine.nodup,mine.member,mine.early,mine.late⟩
      intro skipped
      cases skipped
    · have other : (!j) = i := by rw [Bool.eq_not_of_ne own,Bool.not_not]
      have theirs := tracks.fits j
      rw [moved_other own,other,moved_own]
      refine ⟨theirs.skipped,theirs.nodup,theirs.member,theirs.early,?_⟩
      intro late
      have done := (tracks.commits (!j)).mp late.committed
      rw [other,turn] at done
      cases done

theorem Tracks.step {t : Shelf} {event : Side × ArchiveStep} (tracks : Tracks policy start sys history) (step : Step self policy sys event t) :
    Tracks policy start t (history ++ [event]) := by
  cases step with
  | @skip i found db turn selected few =>
    have before : ¬ (sys.task i).IsCommitted := by
      rw [turn]
      exact fun done => done
    refine tracks.move (by decide) before (fun done => done) (ArchiveTask.fits_empty rfl fun _ => ?_)
    by_cases late : Late i (history ++ [(i,.select)])
    · exact .inl late
    · obtain ⟨_,found_rows⟩ := PinRace.commits_select_archive_candidates selected
      rw [found_rows,tracks.facts_of_early before late,← List.countP_eq_length_filter] at few
      exact .inr few
  | @select i found db turn selected enough =>
    have before : ¬ (sys.task i).IsCommitted := by
      rw [turn]
      exact fun done => done
    exact tracks.move (by decide) before (fun done => done) (tracks.selected before selected enough)
  | @write i found turn pak_filename pak_size_bytes blake3_hash now =>
    have before : ¬ (sys.task i).IsCommitted := by
      rw [turn]
      exact fun done => done
    have same : Late i (history ++ [(i,ArchiveStep.write)]) ↔ Late i history := by
      rw [late_append]
      refine or_iff_left ?_
      rintro ⟨event,_⟩
      cases event
    have mine := tracks.fits i
    rw [turn] at mine
    have written : (ArchiveTask.written found (Archive.manifest pak_filename found.1 found.2 pak_size_bytes blake3_hash now)).Fits (policy i)
        start.storage.facts.rows (Late i (history ++ [(i,.write)])) (sys.task (!i)).gone := by
      rw [same]
      refine ⟨?_,mine.nodup,mine.member,mine.early,mine.late⟩
      intro skipped
      cases skipped
    have moved := tracks.move (by decide) before (by exact fun done => done) written
    exact { moved with }
  | commit turn committed => exact tracks.commit turn committed

theorem Run.tracks (ready : ∀ i, start.task i = .ready) (run : Run self policy start history sys) : Tracks policy start sys history := by
  induction run with
  | start =>
    refine ⟨?_,fun _ => rfl,?_,fun f member => .inl member,?_,?_⟩
    · intro i
      simp [ready,ArchiveTask.IsCommitted]
    · intro f member
      refine ⟨member,fun i => ?_⟩
      simp [ready,ArchiveTask.gone]
    · intro i
      rw [ready]
      exact ⟨List.nodup_nil,fun _ _ f member => absurd member List.not_mem_nil⟩
    · intro i
      rw [ready i]
      refine ArchiveTask.fits_empty rfl fun skipped => ?_
      cases skipped
  | step before step ih => exact ih.step step

/-- What the manifest lists and what lies in the directory. -/
structure Filed (backend : SqliteBackend) (start sys : Shelf) : Prop where
  listed : ∀ m ∈ sys.storage.archive_manifest.rows, m ∈ start.storage.archive_manifest.rows ∨
    ∃ i, (sys.task i).IsCommitted ∧ ∃ file ∈ (sys.task i).file, m.pak_path = file.2.pak_path ∧ m.fact_count = file.2.fact_count
  old : start.storage.archive_manifest.rows ⊆ sys.storage.archive_manifest.rows
  lists : ∀ i, (sys.task i).IsCommitted → ∀ file ∈ (sys.task i).file, ∃ m ∈ sys.storage.archive_manifest.rows, m.pak_path = file.2.pak_path
  fresh : ∀ i, (sys.task i).IsCommitted → ∀ file ∈ (sys.task i).file, ∀ m ∈ start.storage.archive_manifest.rows, m.pak_path ≠ file.2.pak_path
  apart : ∀ i, (sys.task i).IsCommitted → (sys.task (!i)).IsCommitted → ∀ file ∈ (sys.task i).file, ∀ other ∈ (sys.task (!i)).file,
    other.2.pak_path ≠ file.2.pak_path
  counted : ∀ i, ∀ file ∈ (sys.task i).file, file.2.fact_count = file.1.1.length
  filed : ∀ i, ∀ file ∈ (sys.task i).file, sys.files file.2.pak_path = some (Archive.build_pak backend file.1) ∨
    ∃ other ∈ (sys.task (!i)).file, other.2.pak_path = file.2.pak_path
  kept : ∀ path, (∀ i, ∀ file ∈ (sys.task i).file, file.2.pak_path ≠ path) → sys.files path = start.files path

/-- A step that touches neither files nor manifest. -/
theorem Filed.move (filed : Filed self start sys) {i : Side} {task : ArchiveTask} (before : (sys.task i).file = none)
    (pending : ¬ (sys.task i).IsCommitted) (after : task.file = none) (still : ¬ task.IsCommitted) : Filed self start (sys.moved i task) := by
  have files : ∀ j, ((sys.moved i task).task j).file = (sys.task j).file := by
    intro j
    by_cases own : j = i
    · rw [own,moved_own,before,after]
    · rw [moved_other own]
  have committed : ∀ j, ((sys.moved i task).task j).IsCommitted ↔ (sys.task j).IsCommitted := by
    intro j
    by_cases own : j = i
    · rw [own,moved_own]
      exact iff_of_false still pending
    · rw [moved_other own]
  refine ⟨?_,filed.old,?_,?_,?_,?_,?_,?_⟩
  · simpa only [files,committed,moved_storage] using filed.listed
  · simpa only [files,committed,moved_storage] using filed.lists
  · simpa only [files,committed] using filed.fresh
  · simpa only [files,committed] using filed.apart
  · simpa only [files] using filed.counted
  · simpa only [files,moved_files] using filed.filed
  · simpa only [files,moved_files] using filed.kept

/-- A file that is written belongs to its call, and perhaps no longer to the other. -/
theorem Filed.write (filed : Filed self start sys) {i : Side} {found : List Fact × List Edge} {entry : NewArchiveManifest}
    (turn : sys.task i = .selected found) (counted : entry.fact_count = found.1.length) :
    Filed self start { sys.moved i (.written found entry) with
      files := Function.update sys.files entry.pak_path (some (Archive.build_pak self found)) } := by
  have none : (sys.task i).file = none := by rw [turn]; rfl
  have committed : ∀ j, ((sys.moved i (.written found entry)).task j).IsCommitted → j ≠ i ∧ (sys.task j).IsCommitted := by
    intro j done
    by_cases own : j = i
    · rw [own,moved_own] at done
      exact absurd done fun no => no
    · exact ⟨own,by rwa [moved_other own] at done⟩
  refine ⟨?_,filed.old,?_,?_,?_,?_,?_,?_⟩
  · intro m member
    rcases filed.listed m member with old | ⟨j,done,rest⟩
    · exact .inl old
    · have other : j ≠ i := by
        rintro rfl
        rw [turn] at done
        exact done
      refine .inr ⟨j,?_,?_⟩
      · rwa [moved_other other]
      · rwa [moved_other other]
  · intro j done
    obtain ⟨other,was⟩ := committed j done
    rw [moved_other other]
    exact filed.lists j was
  · intro j done
    obtain ⟨other,was⟩ := committed j done
    rw [moved_other other]
    exact filed.fresh j was
  · intro j done done'
    obtain ⟨other,was⟩ := committed j done
    obtain ⟨other',was'⟩ := committed (!j) done'
    rw [moved_other other,moved_other other']
    exact filed.apart j was was'
  · intro j file
    by_cases own : j = i
    · rw [own,moved_own]
      rintro ⟨⟩
      exact counted
    · rw [moved_other own]
      exact filed.counted j file
  · intro j file
    by_cases own : j = i
    · rw [own,moved_own]
      rintro ⟨⟩
      exact .inl (by simp)
    · rw [moved_other own]
      intro theirs
      have other : (!j) = i := by rw [Bool.eq_not_of_ne own,Bool.not_not]
      by_cases same : file.2.pak_path = entry.pak_path
      · refine .inr ⟨(found,entry),?_,same.symm⟩
        rw [other,moved_own]
        rfl
      · rcases filed.filed j file theirs with here | ⟨taken,member,_⟩
        · exact .inl (by simpa [same] using here)
        · rw [other,none] at member
          cases member
  · intro path away
    have mine := away i (found,entry) (by rw [moved_own]; rfl)
    have away' : ∀ j, ∀ file ∈ (sys.task j).file, file.2.pak_path ≠ path := by
      intro j file theirs
      by_cases own : j = i
      · rw [own,none] at theirs
        cases theirs
      · exact away j file (by rwa [moved_other own])
    simpa [mine.symm] using filed.kept path away'

/-- A commit lists the file under a name that was not listed. -/
theorem Filed.commit (filed : Filed self start sys) {i : Side} {found : List Fact × List Edge} {entry : NewArchiveManifest}
    {db : Db} {removed : List Fact} (turn : sys.task i = .written found entry)
    (committed : Commits (Archive.commit_archive_atomic entry (found.1.map Fact.id)) sys.storage () db) :
    Filed self start { sys.moved i (.committed found entry removed) with storage := db } := by
  have mine : (sys.task i).file = some (found,entry) := by rw [turn]; rfl
  have files : ∀ j, ((sys.moved i (.committed found entry removed)).task j).file = (sys.task j).file := by
    intro j
    by_cases own : j = i
    · rw [own,moved_own,mine]
      rfl
    · rw [moved_other own]
  have done_iff : ∀ j, ((sys.moved i (.committed found entry removed)).task j).IsCommitted ↔ (sys.task j).IsCommitted ∨ j = i := by
    intro j
    by_cases own : j = i
    · rw [own,moved_own]
      exact iff_of_true trivial (.inr rfl)
    · rw [moved_other own]
      exact (or_iff_left own).symm
  have rows : ∀ m : ArchiveManifestEntry, m ∈ db.archive_manifest.rows ↔ m ∈ sys.storage.archive_manifest.rows ∨
      m = ArchiveManifestStore.newRow entry sys.storage.archive_manifest.nextId := by
    intro m
    rw [Archive.commits_commit_archive committed]
    exact mem_archived_manifest
  have new : ∀ m ∈ sys.storage.archive_manifest.rows, m.pak_path ≠ entry.pak_path := fun m listed => Archive.fresh_name committed listed
  refine ⟨?_,?_,?_,?_,?_,?_,?_,?_⟩
  · intro m member
    simp only [files,done_iff]
    rcases (rows m).mp member with listed | rfl
    · rcases filed.listed m listed with old | ⟨j,done,rest⟩
      · exact .inl old
      · exact .inr ⟨j,.inl done,rest⟩
    · exact .inr ⟨i,.inr rfl,(found,entry),mine,rfl,rfl⟩
  · exact fun m old => (rows m).mpr (.inl (filed.old old))
  · intro j done file
    rw [files]
    intro theirs
    by_cases own : j = i
    · rw [own,mine] at theirs
      cases theirs
      exact ⟨_,(rows _).mpr (.inr rfl),rfl⟩
    · obtain ⟨m,listed,named⟩ := filed.lists j (((done_iff j).mp done).resolve_right own) file theirs
      exact ⟨m,(rows m).mpr (.inl listed),named⟩
  · intro j done file
    rw [files]
    intro theirs m old
    by_cases own : j = i
    · rw [own,mine] at theirs
      cases theirs
      exact new m (filed.old old)
    · exact filed.fresh j (((done_iff j).mp done).resolve_right own) file theirs m old
  · intro j done done' file theirs other others
    rw [files] at theirs others
    rw [done_iff] at done done'
    by_cases own : j = i
    · -- this call commits second, and the other name is listed
      subst own
      rw [mine] at theirs
      cases theirs
      obtain ⟨m,listed,named⟩ := filed.lists (!j) (done'.resolve_right (Bool.not_ne_self j)) other others
      exact named ▸ new m listed
    · have mirrored : (!j) = i := by rw [Bool.eq_not_of_ne own,Bool.not_not]
      subst mirrored
      rw [mine] at others
      cases others
      obtain ⟨m,listed,named⟩ := filed.lists j (done.resolve_right own) file theirs
      exact (named ▸ new m listed).symm
  · simpa only [files] using filed.counted
  · simpa only [files,moved_files] using filed.filed
  · simpa only [files,moved_files] using filed.kept

theorem Run.filed (ready : ∀ i, start.task i = .ready) (run : Run self policy start history sys) : Filed self start sys := by
  induction run with
  | start =>
    have none : ∀ i, (start.task i).file = none := by
      intro i
      rw [ready]
      rfl
    have pending : ∀ i, ¬ (start.task i).IsCommitted := by
      intro i
      rw [ready]
      exact fun no => no
    refine ⟨fun m listed => .inl listed,fun _ old => old,?_,?_,?_,?_,?_,fun _ _ => rfl⟩
    · exact fun i done => absurd done (pending i)
    · exact fun i done => absurd done (pending i)
    · exact fun i done => absurd done (pending i)
    · simp [none]
    · simp [none]
  | step before step ih =>
    cases step with
    | skip turn => exact ih.move (by rw [turn]; rfl) (by rw [turn]; exact fun no => no) rfl fun no => no
    | select turn => exact ih.move (by rw [turn]; rfl) (by rw [turn]; exact fun no => no) rfl fun no => no
    | write turn => exact ih.write turn rfl
    | commit turn committed => exact ih.commit turn committed

theorem file_of_gone {i : Side} {id : FactId} (deleted : id ∈ (sys.task i).gone) :
    ∃ file ∈ (sys.task i).file, id ∈ file.1.1.map Fact.id := by
  cases task : sys.task i with
  | committed found entry removed =>
    rw [task] at deleted
    exact ⟨(found,entry),rfl,deleted⟩
  | _ =>
    rw [task] at deleted
    cases deleted

section finished
variable (finished : ∀ i, (sys.task i).Succeeded)
include finished

theorem committed_of_file {i : Side} {file : (List Fact × List Edge) × NewArchiveManifest} (written : file ∈ (sys.task i).file) :
    (sys.task i).IsCommitted ∧ (sys.task i).gone = file.1.1.map Fact.id ∧ file.1 ∈ (sys.task i).found := by
  have done := finished i
  cases task : sys.task i with
  | committed found entry removed =>
    rw [task] at written
    cases written
    exact ⟨trivial,rfl,rfl⟩
  | _ =>
    rw [task] at done written
    first | exact absurd done fun no => no | cases written

/-- In the end the file of each call lies under its name. -/
theorem Filed.own (filed : Filed self start sys) {i : Side} {file : (List Fact × List Edge) × NewArchiveManifest}
    (written : file ∈ (sys.task i).file) : sys.files file.2.pak_path = some (Archive.build_pak self file.1) := by
  rcases filed.filed i file written with here | ⟨other,taken,same⟩
  · exact here
  · exact absurd same (filed.apart i (committed_of_file finished written).1 (committed_of_file finished taken).1 file written other taken)

/-- Which listed files hold a fact that the store held at first. -/
theorem Filed.holds_iff (filed : Filed self start sys) (shelved : Shelved start.storage.toTables start.files) {m : ArchiveManifestEntry}
    (listed : m ∈ sys.storage.archive_manifest.rows) {f : Fact} (old : f ∈ start.storage.facts.rows) :
    Holds sys.files m f ↔ ∃ i, f.id ∈ (sys.task i).gone ∧ ∃ file ∈ (sys.task i).file, m.pak_path = file.2.pak_path := by
  constructor
  · rintro ⟨pak,here,member⟩
    rcases filed.listed m listed with before | ⟨i,_,file,written,named,_⟩
    · have away : ∀ i, ∀ file ∈ (sys.task i).file, file.2.pak_path ≠ m.pak_path := fun i file written =>
        (filed.fresh i (committed_of_file finished written).1 file written m before).symm
      rw [filed.kept _ away] at here
      obtain ⟨g,inside,same⟩ := List.mem_map.mp member
      exact absurd (same ▸ Table.has_of_mem old) (shelved m before pak here g inside).2
    · rw [named,filed.own finished written] at here
      cases here
      exact ⟨i,by rw [(committed_of_file finished written).2.1]; exact member,file,written,named⟩
  · rintro ⟨i,deleted,file,written,named⟩
    rw [(committed_of_file finished written).2.1] at deleted
    exact ⟨Archive.build_pak self file.1,by rw [named]; exact filed.own finished written,deleted⟩

/-- All is well exactly when the calls deleted no fact between them twice. -/
theorem consistent_iff (tracks : Tracks policy start sys history) (filed : Filed self start sys)
    (shelved : Shelved start.storage.toTables start.files) :
    sys.Consistent ↔ ∀ f ∈ start.storage.facts.rows, ¬ ∀ i, f.id ∈ (sys.task i).gone := by
  constructor
  · intro consistent f old both
    obtain ⟨i,removed⟩ := (tracks.swept f old).resolve_left fun here => (tracks.left f here).2 true (both true)
    obtain ⟨m,_,only⟩ := consistent.once i f removed
    have named : ∀ j, ∃ file ∈ (sys.task j).file, file.2.pak_path = m.pak_path := by
      intro j
      obtain ⟨file,written,_⟩ := file_of_gone (both j)
      obtain ⟨m',listed,same⟩ := filed.lists j (committed_of_file finished written).1 file written
      have holds := (filed.holds_iff finished shelved listed old).mpr ⟨j,both j,file,written,same⟩
      exact ⟨file,written,by rw [← only m' ⟨listed,holds⟩,same]⟩
    obtain ⟨file,written,here⟩ := named false
    obtain ⟨other,taken,there⟩ := named true
    exact filed.apart false (committed_of_file finished written).1 (committed_of_file finished taken).1 file written other taken
      (there.trans here.symm)
  · intro apart
    have same_side : ∀ {i j : Side} {f : Fact}, f ∈ start.storage.facts.rows → f.id ∈ (sys.task i).gone → f.id ∈ (sys.task j).gone → j = i := by
      intro i j f old here there
      by_contra other
      have mirrored : j = !i := Bool.eq_not_of_ne other
      refine apart f old fun k => ?_
      by_cases own : k = i
      · exact own ▸ here
      · rw [Bool.eq_not_of_ne own,← mirrored]
        exact there
    refine ⟨?_,?_⟩
    · intro i f removed
      cases task : sys.task i with
      | committed found entry rows =>
        have written : (found,entry) ∈ (sys.task i).file := by rw [task]; rfl
        obtain ⟨done,gone,selected⟩ := committed_of_file finished written
        have member := (tracks.removed i).2 found selected f removed
        have old := ((tracks.fits i).member found selected f member).1
        have deleted : f.id ∈ (sys.task i).gone := by
          rw [gone]
          exact List.mem_map_of_mem member
        obtain ⟨m,listed,named⟩ := filed.lists i done _ written
        refine ⟨m,⟨listed,(filed.holds_iff finished shelved listed old).mpr ⟨i,deleted,_,written,named⟩⟩,?_⟩
        rintro m' ⟨listed',holds⟩
        obtain ⟨j,there,file,theirs,named'⟩ := (filed.holds_iff finished shelved listed' old).mp holds
        have own := same_side old deleted there
        subst own
        rw [Option.mem_def.mp written] at theirs
        cases theirs
        exact List.inj_on_of_nodup_map sys.storage.unique.manifest listed' listed (named'.trans named.symm)
      | _ =>
        rw [task] at removed
        cases removed
    · intro i found entry removed task m listed named
      have written : (found,entry) ∈ (sys.task i).file := by rw [task]; rfl
      obtain ⟨done,gone,selected⟩ := committed_of_file finished written
      have counted : m.fact_count = found.1.length := by
        rcases filed.listed m listed with before | ⟨j,_,file,theirs,named',counted⟩
        · exact absurd named (filed.fresh i done _ written m before)
        · by_cases own : j = i
          · subst own
            rw [Option.mem_def.mp written] at theirs
            cases theirs
            rw [counted]
            exact filed.counted _ _ written
          · have mirrored : j = !i := Bool.eq_not_of_ne own
            subst mirrored
            exact absurd (named'.symm.trans named) (filed.apart i done (committed_of_file finished theirs).1 _ written file theirs)
      obtain ⟨nodup,within⟩ := tracks.removed i
      have same : ∀ f : Fact, f ∈ (sys.task i).removed ↔ f ∈ found.1 := by
        intro f
        refine ⟨within found selected f,fun member => ?_⟩
        have old := ((tracks.fits i).member found selected f member).1
        have deleted : f.id ∈ (sys.task i).gone := by
          rw [gone]
          exact List.mem_map_of_mem member
        obtain ⟨j,theirs⟩ := (tracks.swept f old).resolve_left fun here => (tracks.left f here).2 i deleted
        cases other : sys.task j with
        | committed found' entry' removed' =>
          have written' : (found',entry') ∈ (sys.task j).file := by rw [other]; rfl
          obtain ⟨_,gone',selected'⟩ := committed_of_file finished written'
          have there : f.id ∈ (sys.task j).gone := by
            rw [gone']
            exact List.mem_map_of_mem ((tracks.removed j).2 found' selected' f theirs)
          exact same_side old deleted there ▸ theirs
        | _ =>
          rw [other] at theirs
          cases theirs
      have counts := ((List.perm_ext_iff_of_nodup nodup ((tracks.fits i).nodup found selected)).mpr same).length_eq
      rw [task] at counts
      rw [counted,← counts]
      rfl

/-- A fact is deleted by both calls, or meant to be, exactly where neither call selected
    late, both had enough and the fact was theirs to select. -/
theorem apart_iff (tracks : Tracks policy start sys history) :
    (∀ f ∈ start.storage.facts.rows, ¬ ∀ i, f.id ∈ (sys.task i).gone) ↔ (∃ i, Late i history) ∨
      (∀ f ∈ start.storage.facts.rows, ¬ ∀ i, f.archivable (policy i).expired_before = true) ∨
        ∃ i, start.storage.facts.rows.countP (Fact.archivable (policy i).expired_before) < (policy i).min_facts := by
  have chosen : ∀ {i : Side} {f : Fact}, f ∈ start.storage.facts.rows → f.id ∈ (sys.task i).gone →
      ∃ found ∈ (sys.task i).found, f ∈ found.1 := by
    intro i f old deleted
    obtain ⟨file,written,member⟩ := file_of_gone deleted
    have selected := (committed_of_file finished written).2.2
    obtain ⟨g,inside,same⟩ := List.mem_map.mp member
    refine ⟨file.1,selected,?_⟩
    rwa [← start.storage.facts.key_unique ((tracks.fits i).member _ selected g inside).1 old same]
  constructor
  · intro apart
    by_contra overlapping
    simp only [not_or,not_forall,not_exists,not_not,not_lt] at overlapping
    obtain ⟨early,⟨f,old,archivable⟩,enough⟩ := overlapping
    refine apart f old fun i => ?_
    have done := finished i
    cases task : sys.task i with
    | committed found entry removed =>
      have selected : found ∈ (sys.task i).found := by rw [task]; rfl
      refine List.mem_map_of_mem ?_
      rw [((tracks.fits i).early (early i) found selected).1]
      exact List.mem_filter.mpr ⟨old,archivable i⟩
    | skipped =>
      rcases (tracks.fits i).skipped task with late | few
      · exact absurd late (early i)
      · exact absurd few (not_lt.mpr (enough i))
    | _ =>
      rw [task] at done
      exact absurd done fun no => no
  · intro apart f old both
    rcases apart with ⟨i,late⟩ | disjoint | ⟨i,few⟩
    · obtain ⟨found,selected,member⟩ := chosen old (both i)
      exact (tracks.fits i).late late found selected f member (both (!i))
    · refine disjoint f old fun i => ?_
      obtain ⟨found,selected,member⟩ := chosen old (both i)
      exact ((tracks.fits i).member found selected f member).2
    · obtain ⟨found,selected,member⟩ := chosen old (both i)
      by_cases late : Late i history
      · exact (tracks.fits i).late late found selected f member (both (!i))
      · obtain ⟨rows,enough⟩ := (tracks.fits i).early late found selected
        rw [rows,← List.countP_eq_length_filter] at enough
        exact absurd few (not_lt.mpr enough)

end finished

/-- Two calls that both succeed put each fact into one file and count right exactly when
    one of them selects after the other's commit, no fact is theirs both, or one of
    them has too few facts to archive. -/
theorem removed_once_iff {s : Db} {files : PakFiles} (past : Past s files) (run : Run self policy ⟨s,files,fun _ => .ready⟩ history sys)
    (finished : ∀ i, (sys.task i).Succeeded) : sys.Consistent ↔ (∃ i, Late i history) ∨
      (∀ f ∈ s.facts.rows, ¬ ∀ i, f.archivable (policy i).expired_before = true) ∨
        ∃ i, s.facts.rows.countP (Fact.archivable (policy i).expired_before) < (policy i).min_facts := by
  have tracks := run.tracks fun _ => rfl
  rw [consistent_iff finished tracks (run.filed fun _ => rfl) past.shelved]
  exact apart_iff finished tracks

end Shelf

namespace Sample

def shelf (s : Db) : Shelf := ⟨s,fun _ => none,fun _ => .ready⟩

def selecting : Sql (List Fact × List Edge) := Archive.select_archive_candidates backend nextYear

def expiring : Sql Unit := FactStore.expire 1 moment

def entryFor (found : List Fact × List Edge) (name : String) : NewArchiveManifest := Archive.manifest name found.1 found.2 0 "" moment

/-- The commit of a call that wrote a file of the given name. -/
def committing (found : List Fact × List Edge) (name : String) : Sql Unit :=
  Archive.commit_archive_atomic (entryFor found name) (found.1.map Fact.id)

end Sample

namespace Shelf

/-- After one call is through, the other finds too few. -/
theorem removed_once_sample : ∃ s sys history, Run Sample.backend (fun _ => Sample.eager) (Sample.shelf s) history sys ∧
    (sys.Consistent ↔ (∃ i, Late i history) ∨ (∀ f ∈ s.facts.rows, ¬ ∀ _i : Side, f.archivable Sample.eager.expired_before = true) ∨
      ∃ _i : Side, s.facts.rows.countP (Fact.archivable Sample.eager.expired_before) < Sample.eager.min_facts) := by
  have ran : Ends Sample.expiring Sample.engine.storage (fun _ s => decide (s.archive_manifest.rows.length = 0) &&
      Ends Sample.selecting s fun found s' => found.1.length == 1 && Ends (Sample.committing found "a.pak") s' fun _ t =>
        Ends Sample.selecting t fun rest _ => rest.1.length == 0) = true := by
    decide +kernel
  obtain ⟨_,s,_,ran⟩ := commits_of_ends ran
  obtain ⟨none,ran⟩ := Bool.and_eq_true_iff.mp ran
  obtain ⟨found,s',selected,ran⟩ := commits_of_ends ran
  obtain ⟨enough,ran⟩ := Bool.and_eq_true_iff.mp ran
  obtain ⟨_,t,committed,ran⟩ := commits_of_ends ran
  obtain ⟨rest,_,selected',few⟩ := commits_of_ends ran
  obtain ⟨rfl,_⟩ := PinRace.commits_select_archive_candidates selected
  have past : Past s' (Sample.shelf s').files := .unlisted (List.length_eq_zero_iff.mp (of_decide_eq_true none))
  have picked : ¬ found.1.length < Sample.eager.min_facts := by
    rw [beq_iff_eq.mp enough]
    decide
  have ready : Run Sample.backend (fun _ => Sample.eager) (Sample.shelf s') [] (Sample.shelf s') := .start
  have first := ready.step (.select (i := false) rfl selected picked)
  have second := Run.step first (.write (i := false) (rfl : _ = ArchiveTask.selected found) "a.pak" 0 "" Sample.moment)
  have third := Run.step second (.commit (i := false) rfl committed)
  have fourth := Run.step third (.skip (i := true) rfl selected' (by rw [beq_iff_eq.mp few]; decide))
  refine ⟨s',_,_,fourth,removed_once_iff past fourth fun i => ?_⟩
  cases i <;> trivial

/-- Both select the same fact, and both commit. -/
theorem archived_twice : ¬ ∀ (self : SqliteBackend) (policy : Side → ArchivePolicy) (s : Db) (files : PakFiles) (sys : Shelf)
    (history : List (Side × ArchiveStep)), Past s files → Run self policy ⟨s,files,fun _ => .ready⟩ history sys →
      (∀ i, (sys.task i).Succeeded) → sys.Consistent := by
  intro claim
  have ran : Ends Sample.expiring Sample.engine.storage (fun _ s => decide (s.archive_manifest.rows.length = 0) &&
      Ends Sample.selecting s fun found s' => found.1.length == 1 && Ends (Sample.committing found "a.pak") s' fun _ t =>
        Ends (Sample.committing found "b.pak") t fun _ t' => t'.archive_manifest.rows.any fun m => m.pak_path == "b.pak") = true := by
    decide +kernel
  obtain ⟨_,s,_,ran⟩ := commits_of_ends ran
  obtain ⟨none,ran⟩ := Bool.and_eq_true_iff.mp ran
  obtain ⟨found,s',selected,ran⟩ := commits_of_ends ran
  obtain ⟨enough,ran⟩ := Bool.and_eq_true_iff.mp ran
  obtain ⟨_,t,committed,ran⟩ := commits_of_ends ran
  obtain ⟨_,t',committed',ran⟩ := commits_of_ends ran
  obtain ⟨m,listed,named⟩ := List.any_eq_true.mp ran
  obtain ⟨rfl,_⟩ := PinRace.commits_select_archive_candidates selected
  have past : Past s' (Sample.shelf s').files := .unlisted (List.length_eq_zero_iff.mp (of_decide_eq_true none))
  have picked : ¬ found.1.length < Sample.eager.min_facts := by
    rw [beq_iff_eq.mp enough]
    decide
  have ready : Run Sample.backend (fun _ => Sample.eager) (Sample.shelf s') [] (Sample.shelf s') := .start
  have first := ready.step (.select (i := false) rfl selected picked)
  have second := Run.step first (.select (i := true) rfl selected picked)
  have third := Run.step second (.write (i := false) (rfl : _ = ArchiveTask.selected found) "a.pak" 0 "" Sample.moment)
  have fourth := Run.step third (.write (i := true) (rfl : _ = ArchiveTask.selected found) "b.pak" 0 "" Sample.moment)
  have fifth := Run.step fourth (.commit (i := false) rfl committed)
  have sixth := Run.step fifth (.commit (i := true) rfl committed')
  have consistent := claim _ _ s' _ _ _ past sixth fun i => by cases i <;> trivial
  obtain ⟨_,rows⟩ := PinRace.commits_select_archive_candidates selected
  obtain ⟨f,member⟩ : ∃ f, f ∈ found.1 := List.exists_mem_of_length_pos (by rw [beq_iff_eq.mp enough]; decide)
  have old : f ∈ s'.facts.rows := (List.mem_filter.mp (rows ▸ member)).1
  refine (consistent_iff (fun i => by cases i <;> trivial) (sixth.tracks fun _ => rfl) (sixth.filed fun _ => rfl) past.shelved).mp
    consistent f old fun i => ?_
  cases i
  · exact List.mem_map_of_mem member
  · exact List.mem_map_of_mem member

end Shelf
end MemoryEngine
