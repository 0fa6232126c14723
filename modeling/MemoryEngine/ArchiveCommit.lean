import MemoryEngine.Activities
import MemoryEngine.Archive
import MemoryEngine.IngestMirror
import MemoryEngine.Resolve

/-! When the transaction of an archival goes through. Edges are deleted first, and
lineage rows and vectors go with their facts; what can stand in the way is a row of
the activity stream, the number of facts and the name of the file. -/

namespace MemoryEngine
open Time KeyedTable Transaction

/-- Where no file of the name is recorded, a file can be. -/
theorem ArchiveManifestStore.inserts (entry : NewArchiveManifest) {s : Db}
    (fresh : entry.pak_path ∉ s.archive_manifest.rows.map ArchiveManifestEntry.pak_path) :
    ∃ t, Commits (insert entry) s s.archive_manifest.nextId t ∧
      t.toTables = { s.toTables with archive_manifest := s.archive_manifest.insert (newRow entry) (newRow_key entry) } := by
  have unique : ({ s.toTables with
      archive_manifest := s.archive_manifest.insert (newRow entry) (newRow_key entry) } : Tables).Unique := by
    refine { s.unique with manifest := ?_ }
    rw [Table.insert_rows,List.map_append,List.map_singleton,← List.concat_eq_append]
    exact List.Nodup.concat fresh s.unique.manifest
  have foreign : ({ s.toTables with
      archive_manifest := s.archive_manifest.insert (newRow entry) (newRow_key entry) } : Tables).ForeignKeys := { s.foreign with }
  refine ⟨⟨_,unique,foreign⟩,commits_bind.mpr ⟨_,_,commits_query.mpr ⟨rfl,rfl⟩,commits_bind.mpr
    ⟨(),_,commits_execute.mpr rfl,commits_pure.mpr ⟨rfl,rfl⟩⟩⟩,rfl⟩

theorem ArchiveManifestStore.fresh_of_commits {entry : NewArchiveManifest} {s t : Db} {id : Int}
    (committed : Commits (insert entry) s id t) :
    entry.pak_path ∉ s.archive_manifest.rows.map ArchiveManifestEntry.pak_path ∧
      t.toTables = { s.toTables with archive_manifest := s.archive_manifest.insert (newRow entry) (newRow_key entry) } := by
  obtain ⟨_,_,counted,rest⟩ := commits_bind.mp committed
  obtain ⟨rfl,rfl⟩ := commits_query.mp counted
  obtain ⟨_,_,written,last⟩ := commits_bind.mp rest
  obtain ⟨rfl,rfl⟩ := commits_pure.mp last
  have contents := commits_execute.mp written
  refine ⟨fun listed => ?_,contents⟩
  have distinct := t.unique.manifest
  rw [contents,Table.insert_rows,List.map_append] at distinct
  exact (List.nodup_append.mp distinct).2.2 _ listed _ (List.mem_singleton_self _) rfl

/-- Edges can always be deleted. -/
theorem EdgeStore.hard_deletes (fact_ids : List FactId) (s : Db) :
    ∃ n t, Commits (EdgeStore.hard_delete_incident_to_facts fact_ids) s n t := by
  have allowed : ({ s.toTables with edges := s.edges.delete (incidentToAny fact_ids) } : Tables).Unique ∧
      ({ s.toTables with edges := s.edges.delete (incidentToAny fact_ids) } : Tables).ForeignKeys := by
    refine ⟨{ s.unique with },{ s.foreign with edge_source := ?_, edge_target := ?_, edge_scope := ?_ }⟩
    · exact fun e kept => s.foreign.edge_source e (Table.mem_delete.mp kept).1
    · exact fun e kept => s.foreign.edge_target e (Table.mem_delete.mp kept).1
    · exact fun e kept => s.foreign.edge_scope e (Table.mem_delete.mp kept).1
  exact ⟨_,⟨_,allowed.1,allowed.2⟩,commits_bind.mpr ⟨_,_,commits_query.mpr ⟨rfl,rfl⟩,commits_bind.mpr
    ⟨(),_,commits_execute.mpr rfl,commits_pure.mpr ⟨rfl,rfl⟩⟩⟩⟩

namespace Tables

/-- No edge and no activity names one of the facts. -/
structure Unreferenced (t : Tables) (fact_ids : List FactId) : Prop where
  edges : ∀ e ∈ t.edges.rows, incidentToAny fact_ids e = false
  activities : ∀ a ∈ t.activities.rows, ∀ id ∈ a.promoted_fact_id, id ∉ fact_ids

variable {t : Tables} {fact_ids : List FactId}

theorem has_after_delete {id : FactId} (present : t.facts.Has id) (kept : id ∉ fact_ids) :
    (t.facts.delete (fun f => fact_ids.contains f.id)).Has id := by
  obtain ⟨f,member,rfl⟩ := present
  have stays : f.id ∉ fact_ids := kept
  exact ⟨f,Table.mem_delete.mpr ⟨member,by simpa using stays⟩,rfl⟩

theorem not_gone {id : FactId} (kept : t.facts.rows.any (fun f => fact_ids.contains f.id && f.id == id) = false) (present : t.facts.Has id) :
    id ∉ fact_ids := by
  obtain ⟨f,member,rfl⟩ := present
  intro listed
  have gone := List.any_eq_false.mp kept f member
  simp only [List.contains_eq_mem,Bool.and_eq_true,decide_eq_true_eq,beq_iff_eq] at gone
  exact gone ⟨listed,rfl⟩

theorem deleteFacts_unique (unique : t.Unique) : (t.deleteFacts (fun f => fact_ids.contains f.id)).Unique :=
  { unique with
    wisdom := unique.wisdom.sublist (List.filter_sublist.map _)
    vectors := unique.vectors.sublist (List.filter_sublist.map _) }

/-- Facts that nothing names can go: what names them otherwise goes with them. -/
theorem deleteFacts_foreign (foreign : t.ForeignKeys) (unreferenced : t.Unreferenced fact_ids) :
    (t.deleteFacts (fun f => fact_ids.contains f.id)).ForeignKeys := by
  refine { foreign with fact_event := ?_, fact_scope := ?_, edge_source := ?_, edge_target := ?_, wisdom_fact := ?_, promoted_fact := ?_,
                        vector_fact := ?_, vector_space := ?_ }
  · exact fun f kept => foreign.fact_event f (Table.mem_delete.mp kept).1
  · exact fun f kept => foreign.fact_scope f (Table.mem_delete.mp kept).1
  · intro e member
    refine has_after_delete (foreign.edge_source e member) fun listed => ?_
    have apart := unreferenced.edges e member
    simp [incidentToAny,listed] at apart
  · intro e member
    refine has_after_delete (foreign.edge_target e member) fun listed => ?_
    have apart := unreferenced.edges e member
    simp [incidentToAny,listed] at apart
  · intro l kept
    obtain ⟨member,stays⟩ := Table.mem_delete.mp kept
    have present := foreign.wisdom_fact l member
    exact has_after_delete present (not_gone stays present)
  · intro a member id named
    exact has_after_delete (foreign.promoted_fact a member id named) (unreferenced.activities a member id named)
  · intro v kept
    obtain ⟨member,stays⟩ := List.mem_filter.mp kept
    have present := foreign.vector_fact v member
    exact has_after_delete present (not_gone (by simpa using stays) present)
  · exact fun v kept => foreign.vector_space v (List.mem_filter.mp kept).1

end Tables

namespace FactStore

theorem hard_deletes {fact_ids : List FactId} {s : Db} (unreferenced : s.Unreferenced fact_ids)
    (bounded : fact_ids.length ≤ SQLITE_MAX_VARIABLE_NUMBER) : ∃ n t, Commits (hard_delete_ids fact_ids) s n t := by
  unfold hard_delete_ids
  by_cases empty : fact_ids = []
  · rw [if_pos empty]
    exact ⟨0,s,commits_pure.mpr ⟨rfl,rfl⟩⟩
  · rw [if_neg empty]
    refine ⟨s.facts.rows.countP (fun f => fact_ids.contains f.id),⟨s.toTables.deleteFacts (fun f => fact_ids.contains f.id),Tables.deleteFacts_unique s.unique,
      Tables.deleteFacts_foreign s.foreign unreferenced⟩,?_⟩
    exact commits_bind.mpr ⟨(),s,commits_require.mpr ⟨bounded,rfl⟩,commits_bind.mpr ⟨_,s,commits_query.mpr ⟨rfl,rfl⟩,
      commits_bind.mpr ⟨(),_,commits_execute.mpr rfl,commits_pure.mpr ⟨rfl,rfl⟩⟩⟩⟩

/-- A fact that goes is named by no activity that stays. -/
theorem hard_delete_ids_needs {fact_ids : List FactId} {s t : Db} {n : Nat} (committed : Commits (hard_delete_ids fact_ids) s n t) :
    fact_ids.length ≤ SQLITE_MAX_VARIABLE_NUMBER ∧ ∀ a ∈ s.activities.rows, ∀ id ∈ a.promoted_fact_id, id ∉ fact_ids := by
  unfold hard_delete_ids at committed
  split at committed
  · rename_i empty
    subst empty
    exact ⟨Nat.zero_le _,fun _ _ _ _ => List.not_mem_nil⟩
  · obtain ⟨_,m,required,counting⟩ := commits_bind.mp committed
    obtain ⟨bounded,rfl⟩ := commits_require.mp required
    obtain ⟨_,m',counted,deleting⟩ := commits_bind.mp counting
    obtain ⟨_,rfl⟩ := commits_query.mp counted
    obtain ⟨_,m'',written,last⟩ := commits_bind.mp deleting
    obtain ⟨_,rfl⟩ := commits_pure.mp last
    have contents := commits_execute.mp written
    refine ⟨bounded,fun a member id named listed => ?_⟩
    have activities : t.activities = m'.activities := by rw [contents]; rfl
    have present := t.foreign.promoted_fact a (by rw [activities]; exact member) id named
    have facts : t.facts = m'.facts.delete (fun f => fact_ids.contains f.id) := by rw [contents]; rfl
    rw [facts] at present
    obtain ⟨f,_,same,stays⟩ := Table.has_delete.mp present
    have here : f.id = id := same
    simp [here,listed] at stays

end FactStore

namespace Archive
variable {self : SqliteBackend} {entry : NewArchiveManifest}

/-- The transaction of an archival, for any facts. -/
theorem commit_archive_atomic_iff {fact_ids : List FactId} {s : Db} : (∃ t, Commits (commit_archive_atomic entry fact_ids) s () t) ↔
    entry.pak_path ∉ s.archive_manifest.rows.map ArchiveManifestEntry.pak_path ∧ fact_ids.length ≤ SQLITE_MAX_VARIABLE_NUMBER ∧
      ∀ a ∈ s.activities.rows, ∀ id ∈ a.promoted_fact_id, id ∉ fact_ids := by
  constructor
  · rintro ⟨t,committed⟩
    obtain ⟨_,m,recorded,clearing⟩ := commits_bind.mp committed
    obtain ⟨_,m',cleared,deleting⟩ := commits_bind.mp clearing
    obtain ⟨_,m'',deleted,last⟩ := commits_bind.mp deleting
    obtain ⟨fresh,first⟩ := ArchiveManifestStore.fresh_of_commits recorded
    have second := EdgeStore.commits_hard_delete cleared
    obtain ⟨bounded,unnamed⟩ := FactStore.hard_delete_ids_needs deleted
    have activities : m'.activities = s.activities := by rw [second,first]
    rw [activities] at unnamed
    exact ⟨fresh,bounded,unnamed⟩
  · rintro ⟨fresh,bounded,unnamed⟩
    obtain ⟨m,recorded,first⟩ := ArchiveManifestStore.inserts entry fresh
    obtain ⟨n,m',cleared⟩ := EdgeStore.hard_deletes fact_ids m
    have second := EdgeStore.commits_hard_delete cleared
    have unreferenced : m'.Unreferenced fact_ids := by
      constructor
      · intro e kept
        rw [second] at kept
        exact (Table.mem_delete.mp kept).2
      · rw [second,first]
        exact unnamed
    obtain ⟨k,t,deleted⟩ := FactStore.hard_deletes unreferenced bounded
    exact ⟨t,commits_bind.mpr ⟨_,m,recorded,commits_bind.mpr ⟨n,m',cleared,commits_bind.mpr ⟨k,t,deleted,commits_pure.mpr ⟨rfl,rfl⟩⟩⟩⟩⟩

/-- Both ends of the edge are among the facts. -/
def internal (fact_ids : List FactId) (e : Edge) : Bool := fact_ids.contains e.source_fact_id && fact_ids.contains e.target_fact_id

/-- The rows that the selection takes. -/
def selection (cutoff : DateTime) (t : Tables) : List Fact × List Edge :=
  (t.facts.rows.filter (Fact.archivable cutoff),t.edges.rows.filter (internal ((t.facts.rows.filter (Fact.archivable cutoff)).map Fact.id)))

theorem commits_selection {cutoff : DateTime} {s t : Db} {selected : List Fact × List Edge}
    (committed : Commits (select_archive_candidates self cutoff) s selected t) : t = s ∧ selected = selection cutoff s.toTables := by
  obtain ⟨candidate_facts,m,listed,linking⟩ := commits_bind.mp committed
  obtain ⟨candidate_edges,m',linked,last⟩ := commits_bind.mp linking
  obtain ⟨rfl,rfl⟩ := commits_pure.mp last
  obtain ⟨_,_,read,reading⟩ := commits_bind.mp listed
  obtain ⟨rfl,rfl⟩ := commits_query.mp read
  obtain ⟨converted,rfl⟩ := commits_lift.mp reading
  obtain ⟨rfl,_⟩ := readRows_ok.mp converted
  obtain ⟨_,_,edges,converting⟩ := commits_bind.mp linked
  obtain ⟨rfl,rfl⟩ := commits_query.mp edges
  obtain ⟨kept,rfl⟩ := commits_lift.mp converting
  obtain ⟨rfl,_⟩ := readRows_ok.mp kept
  exact ⟨rfl,rfl⟩

/-- The transaction goes through for the selected facts exactly when no activity was
    promoted to one of them, they fit into one statement and the name is new. -/
theorem commits_selected_iff {cutoff : DateTime} {s m : Db} {facts : List Fact} {edges : List Edge}
    (selected : Commits (select_archive_candidates self cutoff) s (facts,edges) m) :
    (∃ t, Commits (commit_archive_atomic entry (facts.map Fact.id)) m () t) ↔
      (∀ a ∈ s.activities.rows, ∀ f ∈ s.facts.rows, f.archivable cutoff = true → a.promoted_fact_id ≠ some f.id) ∧
        s.facts.rows.countP (Fact.archivable cutoff) ≤ SQLITE_MAX_VARIABLE_NUMBER ∧
          ∀ old ∈ s.archive_manifest.rows, old.pak_path ≠ entry.pak_path := by
  obtain ⟨rfl,read⟩ := commits_selection selected
  have contents : facts = m.facts.rows.filter (Fact.archivable cutoff) := congrArg Prod.fst read
  rw [commit_archive_atomic_iff,contents,List.length_map,List.countP_eq_length_filter]
  have fresh : entry.pak_path ∉ m.archive_manifest.rows.map ArchiveManifestEntry.pak_path ↔
      ∀ old ∈ m.archive_manifest.rows, old.pak_path ≠ entry.pak_path := by
    simp
  have unnamed : (∀ a ∈ m.activities.rows, ∀ id ∈ a.promoted_fact_id, id ∉ (m.facts.rows.filter (Fact.archivable cutoff)).map Fact.id) ↔
      ∀ a ∈ m.activities.rows, ∀ f ∈ m.facts.rows, f.archivable cutoff = true → a.promoted_fact_id ≠ some f.id := by
    refine forall₂_congr fun a _ => ?_
    constructor
    · intro apart f member archivable named
      exact apart f.id named (List.mem_map_of_mem (List.mem_filter.mpr ⟨member,archivable⟩))
    · intro apart id named listed
      obtain ⟨f,kept,rfl⟩ := List.mem_map.mp listed
      obtain ⟨member,archivable⟩ := List.mem_filter.mp kept
      exact apart f member archivable named
  rw [fresh,unnamed]
  tauto

end Archive
namespace Sample

/-- No case folding, an empty text for each document, and no call within a window. -/
def stream : ActivityLibraries := ⟨id,fun _ => "",fun _ _ _ => false,Ranking.Shuffle.keep _⟩

/-- A commit by the tool, which the consumer promotes. -/
def commitCall : RecordActivityRequest := ⟨"git_commit",.obj [],some "done","s",moment,none,none⟩

def recorded : Op RecordActivityResult := record_activity ctx stream commitCall (some embedder) { promote_patterns := ["commit"] } moment

/-- The arbiter deletes the first fact. -/
def deleted : Op ConflictResolution := resolve_conflict ctx (fun _ _ => .ok .Delete) 1 (newFact "a") moment

def nextYear : DateTime := { moment with year := 2027 }

def selected : Op (List Fact × List Edge) := port (Archive.select_archive_candidates backend nextYear)

def archiving : NewArchiveManifest := Archive.manifest "a.pak" [] [] 0 "" moment

end Sample

theorem commits_selected_sample : ∃ s m facts edges, Commits (Archive.select_archive_candidates Sample.backend Sample.nextYear) s (facts,edges) m ∧
    ((∃ t, Commits (Archive.commit_archive_atomic Sample.archiving (facts.map Fact.id)) m () t) ↔
      (∀ a ∈ s.activities.rows, ∀ f ∈ s.facts.rows, f.archivable Sample.nextYear = true → a.promoted_fact_id ≠ some f.id) ∧
        s.facts.rows.countP (Fact.archivable Sample.nextYear) ≤ SQLITE_MAX_VARIABLE_NUMBER ∧
          ∀ old ∈ s.archive_manifest.rows, old.pak_path ≠ Sample.archiving.pak_path) := by
  have ran : Ends Sample.deleted Sample.engine (fun _ e =>
      Ends (Archive.select_archive_candidates Sample.backend Sample.nextYear) e.storage fun found _ => found.1.length == 1) = true := by
    decide +kernel
  obtain ⟨_,e,_,ran⟩ := commits_of_ends ran
  obtain ⟨found,m,selected,_⟩ := commits_of_ends ran
  exact ⟨e.storage,m,found.1,found.2,selected,Archive.commits_selected_iff selected⟩

/-- A fact that an activity was promoted to, once deleted by the arbiter, keeps the
    archival from going through. -/
theorem promoted_fact_blocks_archival : ¬ ∀ (ctx : MemoryCtx) (libraries : ActivityLibraries) (req : RecordActivityRequest)
    (embedder : Option EmbeddingProvider) (config : ActivityFilterConfig) (arbiter : ConflictArbiter) (old_id : FactId) (new_fact : NewFact)
    (now cutoff : DateTime) (e₁ e₂ e₃ : Engine) (result : RecordActivityResult) (resolution : ConflictResolution)
    (found : List Fact × List Edge) (entry : NewArchiveManifest),
    Commits (record_activity ctx libraries req embedder config now) Sample.blank result e₁ →
      Commits (resolve_conflict ctx arbiter old_id new_fact now) e₁ resolution e₂ →
        Commits (port (Archive.select_archive_candidates ctx.backend cutoff)) e₂ found e₃ →
          ∃ t, Commits (Archive.commit_archive_atomic entry (found.1.map Fact.id)) e₃.storage () t := by
  intro claim
  have ran : Ends Sample.recorded Sample.blank (fun _ e₁ => Ends Sample.deleted e₁ fun _ e₂ => Ends Sample.selected e₂ fun found e₃ =>
      e₃.storage.activities.rows.any fun a => a.promoted_fact_id.any fun id => (found.1.map Fact.id).contains id) = true := by
    decide +kernel
  obtain ⟨_,e₁,recorded,ran⟩ := commits_of_ends ran
  obtain ⟨_,e₂,deleted,ran⟩ := commits_of_ends ran
  obtain ⟨found,e₃,selected,ran⟩ := commits_of_ends ran
  obtain ⟨a,member,ran⟩ := List.any_eq_true.mp ran
  cases named : a.promoted_fact_id with
  | none =>
    rw [named] at ran
    cases ran
  | some id =>
    rw [named] at ran
    have listed : id ∈ found.1.map Fact.id := List.contains_iff_mem.mp ran
    have committed := claim _ _ _ _ _ _ _ _ _ _ _ _ _ _ _ _ Sample.archiving recorded deleted selected
    exact (Archive.commit_archive_atomic_iff.mp committed).2.2 a member id named listed

end MemoryEngine
