import MemoryEngine.ArchiveRace
import MemoryEngine.ArchiveSearch
import MemoryEngine.Reconstruct

/-! Whose vectors an archive search compares. A promotion replaces the vectors of the
facts; those of the archives stay as they were, and a file records nothing of its
vectors but their dimension. -/

namespace MemoryEngine
open Time KeyedTable Transaction FactVectors Ranking

/-- The store and the archives, with the identity that each vector was made under: of
    the facts, of the rows of each space and of each file. -/
structure Origins where
  storage : Db
  files : PakFiles
  served : FactId → Option EmbeddingFingerprint
  staged : String → FactId → Option EmbeddingFingerprint
  filed : String → FactId → Option EmbeddingFingerprint
  /-- The identity that was recorded when the file was written. -/
  stamped : String → Option EmbeddingFingerprint

/-- What happens besides: no fact is added, and no vector, space or file. -/
structure Aside (s t : Tables) : Prop where
  facts : ∀ f ∈ t.facts.rows, ∃ g ∈ s.facts.rows, g.id = f.id ∧ g.embedding = f.embedding
  vectors : t.fact_vectors ⊆ s.fact_vectors
  spaces : t.embedding_spaces = s.embedding_spaces
  manifest : t.archive_manifest.rows ⊆ s.archive_manifest.rows

namespace Origins

def fresh : Origins := ⟨Db.fresh,fun _ => none,fun _ => none,fun _ _ => none,fun _ _ => none,fun _ => none⟩

/-- The identity recorded now. -/
def recorded (sys : Origins) : Option EmbeddingFingerprint := sys.storage.activeSpace.map EmbeddingSpace.fingerprint

/-- The transactions of `add_fact`, `archive` and `reconstruct`. A provider makes the
    vectors of a batch under the identity of the space that its call has opened. -/
inductive Step (self : SqliteBackend) (sys : Origins) : Origins → Prop where
  | add_fact {fact : NewFact} {fp : EmbeddingFingerprint} {id : FactId} {db : Db}
      (committed : Commits (Ingest.insert_fact_atomic self fact fp self.embed_dim) sys.storage id db) :
      Step self sys { sys with storage := db, served := Function.update sys.served id (some fp) }
  | archive {cutoff : DateTime} {found : List Fact × List Edge} {entry : NewArchiveManifest} {m db : Db}
      (selected : Commits (Archive.select_archive_candidates self cutoff) sys.storage found m)
      (committed : Commits (Archive.commit_archive_atomic entry (found.1.map Fact.id)) sys.storage () db) :
      Step self sys { sys with
        storage := db
        files := Function.update sys.files entry.pak_path (some (Archive.build_pak self found))
        filed := Function.update sys.filed entry.pak_path sys.served
        stamped := Function.update sys.stamped entry.pak_path sys.recorded }
  | begin_populating {name : String} {fp : EmbeddingFingerprint} {db : Db}
      (committed : Commits (EmbeddingSpaces.begin_populating ⟨name,fp,.Populating⟩) sys.storage () db) : Step self sys { sys with storage := db }
  | backfill {space : EmbeddingSpace} {rows : List (FactId × Embedding)} {n : Nat} {db : Db}
      (opened : sys.storage.findSpace space.name = some space) (populating : space.status = .Populating)
      (committed : Commits (write_backfill_batch space.name rows) sys.storage n db) :
      Step self sys { sys with
        storage := db
        staged := fun name id => if name = space.name ∧ vectorIn sys.storage.toTables name id = none then some space.fingerprint
          else sys.staged name id }
  | promote {populating : String} {active : EmbeddingSpace} {outcome : PromoteOutcome} {db : Db}
      (serving : sys.storage.activeSpace = some active) (committed : Commits (promote_space populating) sys.storage outcome db) :
      Step self sys { sys with
        storage := db
        served := sys.staged populating
        staged := fun name => if name = active.name then sys.served else sys.staged name }
  | aside {db : Db} (aside : Aside sys.storage.toTables db.toTables) : Step self sys { sys with storage := db }
  | touched {files : PakFiles}
      (kept : ∀ m ∈ sys.storage.archive_manifest.rows, files m.pak_path = sys.files m.pak_path ∨ files m.pak_path = none) :
      Step self sys { sys with files := files }

/-- A run from an empty store. -/
inductive Run (self : SqliteBackend) : Origins → Prop where
  | fresh : Run self Origins.fresh
  | step {m t : Origins} (before : Run self m) (step : Step self m t) : Run self t

/-- The facts carry vectors of the recorded identity, each space vectors of its own, and
    each file those of the identity at its time. -/
structure Sound (sys : Origins) : Prop where
  facts : ∀ f ∈ sys.storage.facts.rows, sys.served f.id = sys.recorded ∧ sys.recorded ≠ none
  vectors : ∀ v ∈ sys.storage.fact_vectors, ∀ sp ∈ sys.storage.embedding_spaces, sp.name = v.space_id →
    sys.staged v.space_id v.fact_id = some sp.fingerprint
  files : ∀ m ∈ sys.storage.archive_manifest.rows, ∀ pak, sys.files m.pak_path = some pak →
    ∀ f ∈ pak.facts, sys.filed m.pak_path f.id = sys.stamped m.pak_path

variable {self : SqliteBackend} {sys t : Origins}

theorem recorded_of_spaces {s t : Tables} (same : t.embedding_spaces = s.embedding_spaces) : t.activeSpace = s.activeSpace := by
  rw [Tables.activeSpace,Tables.activeSpace,same]

/-- A fact goes in only under the recorded identity, which it settles where there is none. -/
theorem sound_add_fact (sound : sys.Sound) {fact : NewFact} {fp : EmbeddingFingerprint} {id : FactId} {db : Db}
    (committed : Commits (Ingest.insert_fact_atomic self fact fp self.embed_dim) sys.storage id db) :
    Sound { sys with storage := db, served := Function.update sys.served id (some fp) } := by
  obtain ⟨stored,m,recording,inserting⟩ := commits_bind.mp committed
  obtain ⟨_,importance,_,rfl,contents⟩ := FactStore.commits_insert.mp inserting
  have spaces : db.activeSpace = m.activeSpace := by
    rw [contents]
    rfl
  have agreed : m.facts = sys.storage.facts ∧ m.activeSpace.map EmbeddingSpace.fingerprint = some fp ∧
      (∀ f ∈ sys.storage.facts.rows, sys.recorded = some fp) ∧ m.fact_vectors = sys.storage.fact_vectors ∧
        m.archive_manifest = sys.storage.archive_manifest ∧ ∀ v ∈ m.fact_vectors, ∀ sp ∈ m.embedding_spaces, sp.name = v.space_id →
          sp ∈ sys.storage.embedding_spaces := by
    rcases EmbeddingMeta.commits_record_if_absent recording with ⟨same,rfl⟩ | ⟨none,_,seeded⟩
    · exact ⟨rfl,same,fun _ _ => same,rfl,rfl,fun _ _ sp member _ => member⟩
    · refine ⟨by rw [seeded],?_,fun f member => absurd ?_ (sound.facts f member).2,by rw [seeded],by rw [seeded],?_⟩
      · have active : m.activeSpace = some ⟨EmbeddingSpace.DEFAULT_NAME,fp,.Active⟩ := by
          rw [activeSpace_eq_some,seeded]
          exact ⟨List.mem_append_right _ (List.mem_singleton_self _),rfl⟩
        rw [active]
        rfl
      · rw [recorded,none]
        rfl
      · intro v held sp member named
        rw [seeded] at held member
        rcases List.mem_append.mp member with old | new
        · exact old
        · -- the vectors of the new space would have been there before it
          obtain ⟨owner,here,called⟩ := sys.storage.foreign.vector_space v held
          have unused := m.unique.spaces
          rw [seeded,List.map_append] at unused
          have clash := (List.nodup_append.mp unused).2.2 _ (List.mem_map_of_mem here) _ (List.mem_map_of_mem new)
          exact absurd (called.trans named.symm) clash
  obtain ⟨facts,identity,recorded_as,vectors,manifest,owners⟩ := agreed
  have now_recorded : recorded { sys with storage := db, served := Function.update sys.served m.facts.nextId (some fp) } = some fp := by
    rw [recorded,spaces,identity]
  refine ⟨?_,?_,?_⟩
  · intro f member
    rw [now_recorded]
    refine ⟨?_,Option.some_ne_none fp⟩
    change Function.update sys.served m.facts.nextId (some fp) f.id = some fp
    have listed : f ∈ (m.facts.insert (FactStore.newRow self fact importance) (FactStore.newRow_key self fact importance)).rows := by
      rwa [contents] at member
    rcases Table.mem_insert.mp listed with old | rfl
    · have below : f.id ≠ m.facts.nextId := (m.facts.nextId_fresh old).ne
      rw [Function.update_of_ne below]
      rw [facts] at old
      rw [(sound.facts f old).1]
      exact recorded_as f old
    · exact Function.update_self m.facts.nextId _ sys.served
  · intro v held sp member named
    rw [contents] at held member
    have old : v ∈ sys.storage.fact_vectors := vectors ▸ held
    exact sound.vectors v old sp (owners v held sp member named) named
  · intro entry listed
    rw [contents] at listed
    exact sound.files entry (manifest ▸ listed)

/-- The file of an archival holds served vectors. -/
theorem sound_archive (sound : sys.Sound) {cutoff : DateTime} {found : List Fact × List Edge} {entry : NewArchiveManifest} {m db : Db}
    (selected : Commits (Archive.select_archive_candidates self cutoff) sys.storage found m)
    (committed : Commits (Archive.commit_archive_atomic entry (found.1.map Fact.id)) sys.storage () db) :
    Sound { sys with
      storage := db
      files := Function.update sys.files entry.pak_path (some (Archive.build_pak self found))
      filed := Function.update sys.filed entry.pak_path sys.served
      stamped := Function.update sys.stamped entry.pak_path sys.recorded } := by
  obtain ⟨_,rows⟩ := PinRace.commits_select_archive_candidates selected
  have contents := Archive.commits_commit_archive committed
  have spaces : db.embedding_spaces = sys.storage.embedding_spaces := by
    rw [contents]
    rfl
  have same_recorded : db.activeSpace.map EmbeddingSpace.fingerprint = sys.recorded := by rw [recorded_of_spaces spaces,recorded]
  refine ⟨?_,?_,?_⟩
  · intro f member
    rw [contents,mem_archived_facts] at member
    change sys.served f.id = db.activeSpace.map EmbeddingSpace.fingerprint ∧ db.activeSpace.map EmbeddingSpace.fingerprint ≠ none
    rw [same_recorded]
    exact sound.facts f member.1
  · intro v held sp member named
    rw [contents] at held
    rw [spaces] at member
    exact sound.vectors v (List.mem_filter.mp held).1 sp member named
  · intro m' listed pak here f inside
    rw [contents,mem_archived_manifest] at listed
    rcases listed with old | rfl
    · have apart := Archive.fresh_name committed old
      simp only [Function.update_of_ne apart] at here ⊢
      exact sound.files m' old pak here f inside
    · have named : (ArchiveManifestStore.newRow entry sys.storage.archive_manifest.nextId).pak_path = entry.pak_path := rfl
      simp only [named,Function.update_self] at here ⊢
      cases here
      have picked : f ∈ found.1 := inside
      rw [rows] at picked
      exact (sound.facts f (List.mem_filter.mp picked).1).1

theorem sound_begin_populating (sound : sys.Sound) {name : String} {fp : EmbeddingFingerprint} {db : Db}
    (committed : Commits (EmbeddingSpaces.begin_populating ⟨name,fp,.Populating⟩) sys.storage () db) : Sound { sys with storage := db } := by
  rcases EmbeddingSpaces.commits_begin_populating committed with ⟨_,_,_,_,rfl⟩ | ⟨absent,contents⟩
  · exact sound
  · have serving : db.activeSpace = sys.storage.activeSpace := by
      rw [contents,Tables.activeSpace,Tables.activeSpace,List.find?_append]
      simp [EmbeddingSpace.isActive]
    refine ⟨?_,?_,?_⟩
    · intro f member
      rw [contents] at member
      change sys.served f.id = db.activeSpace.map EmbeddingSpace.fingerprint ∧ db.activeSpace.map EmbeddingSpace.fingerprint ≠ none
      rw [serving]
      exact sound.facts f member
    · intro v held sp member named
      rw [contents] at held member
      rcases List.mem_append.mp member with old | new
      · exact sound.vectors v held sp old named
      · -- no vector is in a space that was not there
        obtain ⟨owner,here,called⟩ := sys.storage.foreign.vector_space v held
        rw [List.mem_singleton.mp new] at named
        exact absurd (called.trans named.symm) (by simpa using List.find?_eq_none.mp absent owner here)
    · intro m listed
      rw [contents] at listed
      exact sound.files m listed

theorem sound_backfill (sound : sys.Sound) {space : EmbeddingSpace} {rows : List (FactId × Embedding)} {n : Nat} {db : Db}
    (opened : sys.storage.findSpace space.name = some space)
    (committed : Commits (write_backfill_batch space.name rows) sys.storage n db) :
    Sound { sys with
      storage := db
      staged := fun name id => if name = space.name ∧ vectorIn sys.storage.toTables name id = none then some space.fingerprint
        else sys.staged name id } := by
  obtain ⟨contents,added⟩ := commits_write_backfill_batch committed
  have spaces : db.embedding_spaces = sys.storage.embedding_spaces := by rw [contents]
  have facts : db.facts = sys.storage.facts := by rw [contents]
  have manifest : db.archive_manifest = sys.storage.archive_manifest := by rw [contents]
  obtain ⟨here,_⟩ := (findSpace_eq_some _).mp opened
  refine ⟨?_,?_,?_⟩
  · intro f member
    change sys.served f.id = db.activeSpace.map EmbeddingSpace.fingerprint ∧ db.activeSpace.map EmbeddingSpace.fingerprint ≠ none
    rw [recorded_of_spaces spaces]
    exact sound.facts f (facts ▸ member)
  · intro v held sp member named
    rw [spaces] at member
    change (if v.space_id = space.name ∧ vectorIn sys.storage.toTables v.space_id v.fact_id = none then some space.fingerprint
      else sys.staged v.space_id v.fact_id) = some sp.fingerprint
    by_cases new : v.space_id = space.name ∧ vectorIn sys.storage.toTables v.space_id v.fact_id = none
    · rw [if_pos new,space_name_unique _ here member (new.1.symm.trans named.symm)]
    · rw [if_neg new]
      rcases added v held with old | ⟨called,absent,_⟩
      · exact sound.vectors v old sp member named
      · exact absurd ⟨called,called ▸ absent⟩ new
  · intro m listed
    exact sound.files m (manifest ▸ listed)

/-- A promotion serves vectors of the new identity, and records it. -/
theorem sound_promote (sound : sys.Sound) {populating : String} {active : EmbeddingSpace} {outcome : PromoteOutcome} {db : Db}
    (serving : sys.storage.activeSpace = some active) (committed : Commits (promote_space populating) sys.storage outcome db) :
    Sound { sys with
      storage := db
      served := sys.staged populating
      staged := fun name => if name = active.name then sys.served else sys.staged name } := by
  obtain ⟨active',new,found,named,status,complete,contents,_⟩ := commits_promote_space committed
  rw [serving] at found
  cases found
  have promotion := activeSpace_promoted named contents
  obtain ⟨held,called⟩ := (findSpace_eq_some _).mp named
  obtain ⟨was_serving,_⟩ := (activeSpace_eq_some _).mp serving
  refine ⟨?_,?_,?_⟩
  · intro f member
    change sys.staged populating f.id = db.activeSpace.map EmbeddingSpace.fingerprint ∧ db.activeSpace.map EmbeddingSpace.fingerprint ≠ none
    rw [promotion]
    rw [contents] at member
    obtain ⟨old,there,rfl⟩ := mem_swappedFacts.mp member
    have filled : vectorIn sys.storage.toTables populating old.id ≠ none := by
      intro missing
      have unfilled : old ∈ unbackfilled sys.storage.toTables populating := List.mem_filter.mpr ⟨there,by simp [missing]⟩
      rw [complete] at unfilled
      cases unfilled
    obtain ⟨embedding,vector⟩ := Option.ne_none_iff_exists'.mp filled
    have staged := sound.vectors _ (vectorIn_eq_some.mp vector) new held called
    exact ⟨staged,Option.some_ne_none _⟩
  · intro v stays sp member same
    rw [contents] at stays member
    obtain ⟨old,inside,old_name,old_fp⟩ := mem_promoted_spaces member
    change (if v.space_id = active.name then sys.served else sys.staged v.space_id) v.fact_id = some sp.fingerprint
    have here := (List.mem_filter.mp stays).1
    by_cases retained : v.space_id = active.name
    · have present : sys.storage.facts.Has v.fact_id := by
        rcases List.mem_append.mp here with before | kept
        · exact sys.storage.foreign.vector_fact v before
        · obtain ⟨f,there,rfl⟩ := List.mem_map.mp kept
          exact Table.has_of_mem there
      obtain ⟨f,there,keyed⟩ := present
      have identified : f.id = v.fact_id := keyed
      rw [if_pos retained,← identified,(sound.facts f there).1,recorded,serving,
        ← old_fp,space_name_unique _ inside was_serving (old_name.trans (same.trans retained))]
      rfl
    · rw [if_neg retained]
      rcases List.mem_append.mp here with before | kept
      · rw [← old_fp]
        exact sound.vectors v before old inside (old_name.trans same)
      · obtain ⟨f,_,rfl⟩ := List.mem_map.mp kept
        exact absurd rfl retained
  · intro m listed
    rw [contents] at listed
    exact sound.files m listed

theorem sound_step (sound : sys.Sound) (step : Step self sys t) : t.Sound := by
  cases step with
  | add_fact committed => exact sound_add_fact sound committed
  | archive selected committed => exact sound_archive sound selected committed
  | begin_populating committed => exact sound_begin_populating sound committed
  | backfill opened populating committed => exact sound_backfill sound opened committed
  | promote serving committed => exact sound_promote sound serving committed
  | @aside db aside =>
    refine ⟨?_,?_,?_⟩
    · intro f member
      obtain ⟨g,before,same,_⟩ := aside.facts f member
      change sys.served f.id = db.activeSpace.map EmbeddingSpace.fingerprint ∧ db.activeSpace.map EmbeddingSpace.fingerprint ≠ none
      rw [recorded_of_spaces aside.spaces,← same]
      exact sound.facts g before
    · intro v held sp member named
      exact sound.vectors v (aside.vectors held) sp (aside.spaces ▸ member) named
    · intro m listed
      exact sound.files m (aside.manifest listed)
  | touched kept =>
    refine ⟨sound.facts,sound.vectors,?_⟩
    intro m listed pak here
    rcases kept m listed with same | gone
    · exact sound.files m listed pak (same ▸ here)
    · cases gone.symm.trans here

theorem Run.sound (run : Run self sys) : sys.Sound := by
  induction run with
  | fresh =>
    refine ⟨?_,?_,?_⟩
    · intro f member
      cases member
    · intro v held
      cases held
    · intro m listed
      cases listed
  | step before step ih => exact sound_step ih step

/-- A rewrite of facts that keeps their vectors. -/
theorem Aside.of_update {s t : Tables} {sel : Fact → Bool} {change : Fact → Fact} {same : ∀ f, (change f).id = f.id}
    (vectors : ∀ f, (change f).embedding = f.embedding) (contents : t = { s with facts := s.facts.update sel change same }) : Aside s t := by
  subst contents
  refine ⟨?_,List.Subset.refl _,rfl,List.Subset.refl _⟩
  intro f member
  have listed : f ∈ (s.facts.update sel change same).rows := member
  rw [Table.mem_update] at listed
  obtain ⟨old,before,rfl⟩ := listed
  refine ⟨old,before,?_⟩
  split
  · exact ⟨(same old).symm,(vectors old).symm⟩
  · exact ⟨rfl,rfl⟩

/-- The batches of a reconstruction fill the space that it opened. -/
theorem Run.backfills (run : Run self sys) {space : EmbeddingSpace} (opened : sys.storage.findSpace space.name = some space)
    (populating : space.status = .Populating) {target_dim : Nat} {db : Db}
    (filled : Reconstruct.Backfills space.name target_dim sys.storage db) :
    ∃ t, Run self t ∧ t.storage = db ∧ db.findSpace space.name = some space := by
  induction filled with
  | start => exact ⟨sys,run,rfl,opened⟩
  | @batch m db rows n before sized written ih =>
    obtain ⟨t,reached,rfl,named⟩ := ih
    refine ⟨_,.step reached (.backfill named populating written),rfl,?_⟩
    rw [(commits_write_backfill_batch written).1]
    exact named

/-- A reconstruction is steps of a run. -/
theorem Run.reconstruct (run : Run self sys) {ctx : MemoryCtx} {new_fingerprint : EmbeddingFingerprint} {embedder : EmbeddingProvider}
    {outcome : PromoteOutcome} {e e' : Engine} (here : e.storage = sys.storage)
    (committed : Commits (reconstruct ctx new_fingerprint embedder) e outcome e') : ∃ t, Run self t ∧ t.storage = e'.storage := by
  obtain ⟨m,m',promoted,begun,filled,swapped,_⟩ := Reconstruct.commits_reconstruct committed
  rw [here] at begun
  have first := Run.step run (.begin_populating begun)
  have opened : ∃ space : EmbeddingSpace, m.findSpace space.name = some space ∧ space.status = .Populating ∧
      space.name = Reconstruct.space_name_for new_fingerprint := by
    rcases EmbeddingSpaces.commits_begin_populating begun with ⟨existing,found,status,_,rfl⟩ | ⟨_,contents⟩
    · obtain ⟨_,called⟩ := (findSpace_eq_some _).mp found
      have called : existing.name = Reconstruct.space_name_for new_fingerprint := called
      exact ⟨existing,called ▸ found,status,called⟩
    · refine ⟨⟨Reconstruct.space_name_for new_fingerprint,new_fingerprint,.Populating⟩,?_,rfl,rfl⟩
      rw [findSpace_eq_some,contents]
      exact ⟨List.mem_append_right _ (List.mem_singleton_self _),rfl⟩
  obtain ⟨space,found,status,called⟩ := opened
  rw [← called] at filled
  obtain ⟨t,reached,rfl,_⟩ := Run.backfills first found status filled
  obtain ⟨active,_,serving,_⟩ := commits_promote_space swapped
  exact ⟨_,.step reached (.promote serving swapped),rfl⟩

end Origins

namespace ArchiveSearch
variable (dir : ArchiveDir) (query : MemoryQuery)

/-- The scan computes the similarity of this fact to the query. -/
def Compares (fact : Fact) : Prop := query.fact_type.all (fun ft => fact.fact_type == ft) = true ∧
  ∃ query_emb, query.embedding = some query_emb ∧ query_emb.length = fact.embedding.length ∧ fact.embedding ≠ []

/-- The files that a scan reads before it ends or fails. -/
def scanned : List ArchiveManifestEntry → List (ArchiveManifestEntry × ArchivePak)
  | [] => []
  | entry :: rest =>
    if !is_within_archive_dir entry.pak_path || entry_is_prunable entry query then scanned rest else
    match dir entry.pak_path with
    | none => scanned rest
    | some (.error _) => []
    | some (.ok pak) => (entry,pak) :: scanned rest

variable {dir query} {libraries : SearchLibraries} {ties : Shuffle SearchResult}

theorem mem_scanned {entries : List ArchiveManifestEntry} {x : ArchiveManifestEntry × ArchivePak} (read : x ∈ scanned dir query entries) :
    x.1 ∈ entries ∧ dir x.1.pak_path = some (.ok x.2) := by
  induction entries with
  | nil => cases read
  | cons entry rest ih =>
    unfold scanned at read
    split at read
    · exact ⟨List.mem_cons_of_mem _ (ih read).1,(ih read).2⟩
    · split at read
      · exact ⟨List.mem_cons_of_mem _ (ih read).1,(ih read).2⟩
      · cases read
      · rename_i here
        rcases List.mem_cons.mp read with rfl | later
        · exact ⟨List.mem_cons_self,here⟩
        · exact ⟨List.mem_cons_of_mem _ (ih later).1,(ih later).2⟩

theorem scanned_cons {entry : ArchiveManifestEntry} {rest : List ArchiveManifestEntry} (within : is_within_archive_dir entry.pak_path = true)
    {pak : ArchivePak} (here : dir entry.pak_path = some (.ok pak)) :
    scanned dir query (entry :: rest) = (entry,pak) :: scanned dir query rest := by
  rw [scanned,within,here]
  rfl

/-- Two measures of similarity that agree on what is compared. -/
def Agree (libraries libraries' : SearchLibraries) (query : MemoryQuery) (fact : Fact) : Prop := Compares query fact →
  ∀ query_emb ∈ query.embedding, libraries.cosine_similarity query_emb fact.embedding = libraries'.cosine_similarity query_emb fact.embedding

theorem scan_fact_agree {similarity : Embedding → Embedding → F32} {limit : Nat} {heap : List SearchResult} {fact : Fact}
    (agree : Agree libraries { libraries with cosine_similarity := similarity } query fact) :
    scan_fact libraries ties query limit heap fact = scan_fact { libraries with cosine_similarity := similarity } ties query limit heap fact := by
  unfold scan_fact
  by_cases typed : query.fact_type.all (fun ft => fact.fact_type == ft) = true
  · rw [if_pos typed,if_pos typed]
    have same : cosine_score libraries query fact = cosine_score { libraries with cosine_similarity := similarity } query fact := by
      unfold cosine_score
      cases given : query.embedding with
      | none => rfl
      | some query_emb =>
        dsimp only
        by_cases fits : query_emb.length = fact.embedding.length ∧ fact.embedding ≠ []
        · rw [if_pos fits,if_pos fits,agree ⟨typed,query_emb,given,fits⟩ query_emb (Option.mem_def.mpr given)]
        · rw [if_neg fits,if_neg fits]
    have scores : match_score libraries query fact = match_score { libraries with cosine_similarity := similarity } query fact := by
      unfold match_score
      rw [same]
    rw [scores]
  · rw [if_neg typed,if_neg typed]

theorem scan_facts_agree {similarity : Embedding → Embedding → F32} {limit : Nat} {facts : List Fact} {heap : List SearchResult}
    (agree : ∀ f ∈ facts, Agree libraries { libraries with cosine_similarity := similarity } query f) :
    facts.foldl (scan_fact libraries ties query limit) heap =
      facts.foldl (scan_fact { libraries with cosine_similarity := similarity } ties query limit) heap := by
  induction facts generalizing heap with
  | nil => rw [List.foldl_nil,List.foldl_nil]
  | cons fact rest ih =>
    obtain ⟨here,later⟩ := List.forall_mem_cons.mp agree
    rw [List.foldl_cons,List.foldl_cons,scan_fact_agree here,ih later]

theorem scan_entry_agree {similarity : Embedding → Embedding → F32} {limit : Nat} {scan : List SearchResult × Nat}
    {entry : ArchiveManifestEntry} {rest : List ArchiveManifestEntry}
    (agree : ∀ x ∈ scanned dir query (entry :: rest), ∀ f ∈ x.2.facts,
      Agree libraries { libraries with cosine_similarity := similarity } query f) :
    scan_entry libraries ties dir query limit scan entry =
      scan_entry { libraries with cosine_similarity := similarity } ties dir query limit scan entry := by
  unfold scanned at agree
  unfold scan_entry
  by_cases skipped : (!is_within_archive_dir entry.pak_path || entry_is_prunable entry query) = true
  · rw [if_pos skipped,if_pos skipped]
  · rw [if_neg skipped,if_neg skipped]
    rw [if_neg skipped] at agree
    cases here : dir entry.pak_path with
    | none => rfl
    | some found =>
      rw [here] at agree
      cases found with
      | error e => rfl
      | ok pak =>
        dsimp only
        rw [scan_facts_agree (List.forall_mem_cons.mp agree).1]

/-- What is read after an entry is read if its scan does not fail. -/
theorem scanned_rest {limit : Nat} {scan next : List SearchResult × Nat} {entry : ArchiveManifestEntry} {rest : List ArchiveManifestEntry}
    (ok : scan_entry libraries ties dir query limit scan entry = .ok next) {x : ArchiveManifestEntry × ArchivePak}
    (later : x ∈ scanned dir query rest) : x ∈ scanned dir query (entry :: rest) := by
  unfold scanned
  by_cases skipped : (!is_within_archive_dir entry.pak_path || entry_is_prunable entry query) = true
  · rwa [if_pos skipped]
  · rw [if_neg skipped]
    unfold scan_entry at ok
    rw [if_neg skipped] at ok
    cases here : dir entry.pak_path with
    | none => exact later
    | some found =>
      rw [here] at ok
      cases found with
      | error e => cases ok
      | ok pak => exact List.mem_cons_of_mem _ later

/-- A search depends on the similarity of what it compares, and of nothing else. -/
theorem search_archives_agree {similarity : Embedding → Embedding → F32} {limit : Nat} {entries : List ArchiveManifestEntry}
    (agree : ∀ x ∈ scanned dir query entries, ∀ f ∈ x.2.facts, Agree libraries { libraries with cosine_similarity := similarity } query f) :
    search_archives libraries ties dir entries query limit =
      search_archives { libraries with cosine_similarity := similarity } ties dir entries query limit := by
  unfold search_archives
  generalize ([],0) = scan
  have folds : entries.foldlM (scan_entry libraries ties dir query limit) scan =
      entries.foldlM (scan_entry { libraries with cosine_similarity := similarity } ties dir query limit) scan := by
    induction entries generalizing scan with
    | nil => rw [List.foldlM_nil,List.foldlM_nil]
    | cons entry rest ih =>
      rw [List.foldlM_cons,List.foldlM_cons,← scan_entry_agree agree]
      cases ran : scan_entry libraries ties dir query limit scan entry with
      | error e =>
        have stops : ∀ k : List SearchResult × Nat → Except MemoryError (List SearchResult × Nat), (Except.error e >>= k) = .error e := by
          intro k
          rfl
        rw [stops,stops]
      | ok next =>
        have goes : ∀ k : List SearchResult × Nat → Except MemoryError (List SearchResult × Nat), (Except.ok next >>= k) = k next := by
          intro k
          rfl
        have later : ∀ x ∈ scanned dir query rest, ∀ f ∈ x.2.facts,
            Agree libraries { libraries with cosine_similarity := similarity } query f := by
          intro x read
          exact agree x (scanned_rest ran read)
        rw [goes,goes,ih later next]
  rw [folds]

end ArchiveSearch

open ArchiveSearch

/-- The vectors of a file that a search reads are of the identity at its time. -/
theorem filed_eq_stamped {self : SqliteBackend} {sys : Origins} (run : Origins.Run self sys) {entries : List ArchiveManifestEntry}
    (listed : Commits ArchiveManifestStore.list sys.storage entries sys.storage) {dir : ArchiveDir}
    (reads : ∀ path pak, dir path = some (.ok pak) → sys.files path = some pak) {query : MemoryQuery}
    {x : ArchiveManifestEntry × ArchivePak} (read : x ∈ scanned dir query entries) {f : Fact} (inside : f ∈ x.2.facts) :
    sys.filed x.1.pak_path f.id = sys.stamped x.1.pak_path := by
  obtain ⟨entry,here⟩ := mem_scanned read
  obtain ⟨_,_,queried,reading⟩ := commits_bind.mp listed
  obtain ⟨rfl,rfl⟩ := commits_query.mp queried
  rw [(readRows_ok.mp (commits_lift.mp reading).1).1,mem_descending] at entry
  exact run.sound.files x.1 entry x.2 (reads _ _ here) f inside

/-- The manifest lists where its times can be read. -/
theorem ArchiveManifestStore.lists {s : Db} (readable : ∀ entry ∈ s.archive_manifest.rows, Readable entry) :
    Commits list s (descending (fun entry => OrderDual.toDual entry.created_at.to_rfc3339) s.archive_manifest.rows) s := by
  refine commits_bind.mpr ⟨_,s,commits_query.mpr ⟨rfl,rfl⟩,commits_lift.mpr ⟨readRows_ok.mpr ⟨rfl,?_⟩,rfl⟩⟩
  intro entry listed
  exact readable entry (mem_descending.mp listed)

/-- What a search compares with a query of the recorded identity is of that identity
    exactly when each file with something to compare was written under it. -/
theorem compared_under_recorded_iff {self : SqliteBackend} {sys : Origins} (run : Origins.Run self sys) {entries : List ArchiveManifestEntry}
    (listed : Commits ArchiveManifestStore.list sys.storage entries sys.storage) {dir : ArchiveDir}
    (reads : ∀ path pak, dir path = some (.ok pak) → sys.files path = some pak) (query : MemoryQuery) :
    (∀ x ∈ scanned dir query entries, ∀ f ∈ x.2.facts, Compares query f → sys.filed x.1.pak_path f.id = sys.recorded) ↔
      ∀ x ∈ scanned dir query entries, (∃ f ∈ x.2.facts, Compares query f) → sys.stamped x.1.pak_path = sys.recorded := by
  constructor
  · rintro alike x read ⟨f,inside,compared⟩
    rw [← filed_eq_stamped run listed reads read inside]
    exact alike x read f inside compared
  · intro stamped x read f inside compared
    rw [filed_eq_stamped run listed reads read inside]
    exact stamped x read ⟨f,inside,compared⟩

namespace Sample

def identity (model : String) : EmbeddingFingerprint := ⟨model,"p",1,none,"f32"⟩

def adding : Sql FactId := Ingest.insert_fact_atomic backend (newFact "a") (identity "m") 1

def reopening : Sql Unit := EmbeddingSpaces.begin_populating ⟨"n_p_1",identity "n",.Populating⟩

theorem within_archive_dir : is_within_archive_dir "a.pak" = true := by decide +kernel

/-- A vector of the new model. -/
def newModel : MemoryQuery := { embedding := some [0x3F000000], include_archives := true }

end Sample

namespace Origins

/-- A fact is archived under one identity, and another one of its dimension is promoted. -/
theorem archived_then_promoted : ∃ sys entries, Run Sample.backend sys ∧ Commits ArchiveManifestStore.list sys.storage entries sys.storage ∧
    ∃ x ∈ scanned (fun path => (sys.files path).map .ok) Sample.newModel entries, ∃ f ∈ x.2.facts, Compares Sample.newModel f ∧
      sys.stamped x.1.pak_path = some (Sample.identity "m") ∧ sys.recorded = some (Sample.identity "n") := by
  have ran : Ends Sample.adding Db.fresh (fun _ s₁ => Ends Sample.expiring s₁ fun _ s₂ => Ends Sample.selecting s₂ fun found m =>
      Ends (Sample.committing found "a.pak") m fun _ s₃ => Ends Sample.reopening s₃ fun _ s₄ =>
        Ends (promote_space "n_p_1") s₄ fun _ s₅ => decide (s₅.archive_manifest.rows.map ArchiveManifestEntry.pak_path = ["a.pak"]) &&
          decide (∀ entry ∈ s₅.archive_manifest.rows, ArchiveManifestStore.Readable entry) &&
            decide (found.1.map Fact.embedding = [[0x3F000000]]) &&
              decide (s₂.activeSpace.map EmbeddingSpace.fingerprint = some (Sample.identity "m")) &&
                decide (s₅.activeSpace.map EmbeddingSpace.fingerprint = some (Sample.identity "n"))) = true := by
    decide +kernel
  obtain ⟨id,s₁,added,ran⟩ := commits_of_ends ran
  obtain ⟨_,s₂,expired,ran⟩ := commits_of_ends ran
  obtain ⟨found,m,selected,ran⟩ := commits_of_ends ran
  obtain ⟨_,s₃,archived,ran⟩ := commits_of_ends ran
  obtain ⟨_,s₄,begun,ran⟩ := commits_of_ends ran
  obtain ⟨outcome,s₅,promoted,ran⟩ := commits_of_ends ran
  simp only [Bool.and_eq_true,decide_eq_true_eq] at ran
  obtain ⟨⟨⟨⟨one_file,readable⟩,one_fact⟩,before⟩,after⟩ := ran
  obtain ⟨rfl,_⟩ := PinRace.commits_select_archive_candidates selected
  have listed := ArchiveManifestStore.lists readable
  obtain ⟨active,_,serving,_⟩ := commits_promote_space promoted
  have empty : Run Sample.backend Origins.fresh := .fresh
  have first := Run.step empty (.add_fact added)
  have aside : Aside s₁.toTables m.toTables := by
    refine Aside.of_update ?_ (FactStore.commits_updateActive.mp expired).2
    exact fun _ => rfl
  have second := Run.step first (.aside aside)
  have third := Run.step second (.archive selected archived)
  have fourth := Run.step third (.begin_populating begun)
  have fifth := Run.step fourth (.promote serving promoted)
  obtain ⟨entry,single_file,named⟩ := List.map_eq_singleton_iff.mp one_file
  rw [single_file] at listed
  refine ⟨_,[entry],fifth,listed,?_⟩
  obtain ⟨f,single,vector⟩ := List.map_eq_singleton_iff.mp one_fact
  refine ⟨(entry,Archive.build_pak Sample.backend found),?_,f,?_,⟨rfl,_,rfl,?_,?_⟩,?_,after⟩
  · have within : is_within_archive_dir entry.pak_path = true := named ▸ Sample.within_archive_dir
    have here : ∀ (files : PakFiles), (Function.update files "a.pak" (some (Archive.build_pak Sample.backend found)) entry.pak_path).map
        (Except.ok : ArchivePak → Except MemoryError ArchivePak) = some (.ok (Archive.build_pak Sample.backend found)) := by
      intro files
      rw [named]
      simp
    rw [scanned_cons within (here _)]
    exact List.mem_singleton_self _
  · change f ∈ found.1
    rw [single]
    exact List.mem_singleton_self f
  · rw [vector]
  · rw [vector]
    simp
  · rw [named]
    simpa [Sample.entryFor,Archive.manifest,recorded] using before

theorem read_files {files : PakFiles} {path : String} {pak : ArchivePak}
    (here : (files path).map Except.ok = some (Except.ok pak : Except MemoryError ArchivePak)) : files path = some pak := by
  obtain ⟨_,found,same⟩ := Option.map_eq_some_iff.mp here
  cases same
  exact found

theorem compared_under_recorded_sample : ∃ sys entries, Run Sample.backend sys ∧
    scanned (fun path => (sys.files path).map .ok) Sample.newModel entries ≠ [] ∧
      ((∀ x ∈ scanned (fun path => (sys.files path).map .ok) Sample.newModel entries, ∀ f ∈ x.2.facts, Compares Sample.newModel f →
          sys.filed x.1.pak_path f.id = sys.recorded) ↔
        ∀ x ∈ scanned (fun path => (sys.files path).map .ok) Sample.newModel entries, (∃ f ∈ x.2.facts, Compares Sample.newModel f) →
          sys.stamped x.1.pak_path = sys.recorded) := by
  obtain ⟨sys,entries,run,listed,x,read,_⟩ := archived_then_promoted
  exact ⟨sys,entries,run,List.ne_nil_of_mem read,compared_under_recorded_iff run listed (fun _ _ here => read_files here) Sample.newModel⟩

/-- A query of the promoted identity is compared with a vector of the old one. -/
theorem foreign_vector_compared : ¬ ∀ (self : SqliteBackend) (sys : Origins) (entries : List ArchiveManifestEntry) (dir : ArchiveDir)
    (query : MemoryQuery), Run self sys → Commits ArchiveManifestStore.list sys.storage entries sys.storage →
      (∀ path pak, dir path = some (.ok pak) → sys.files path = some pak) →
        ∀ x ∈ scanned dir query entries, ∀ f ∈ x.2.facts, Compares query f → sys.filed x.1.pak_path f.id = sys.recorded := by
  intro claim
  obtain ⟨sys,entries,run,listed,x,read,f,inside,compared,stamped,recorded⟩ := archived_then_promoted
  have alike := claim _ sys entries _ _ run listed (fun _ _ here => read_files here) x read f inside compared
  rw [filed_eq_stamped run listed (fun _ _ here => read_files here) read inside,stamped,recorded] at alike
  exact absurd (Option.some.inj alike) (by decide)

end Origins
end MemoryEngine
