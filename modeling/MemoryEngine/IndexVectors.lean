import MemoryEngine.IndexRace

/-! The vectors in the index against those in the facts table, over calls of the storage port
one after the other. The index is fed with what the caller passed, which for a fact that was
only reinforced is not what its row holds. -/

namespace MemoryEngine
open Time KeyedTable Transaction

/-- The database and the index beside it. -/
structure Indexed (hnsw : Hnsw) where
  storage : Db
  index : HnswInner hnsw

namespace Indexed
variable {hnsw : Hnsw} {self : SqliteBackend}

/-- A call, or a reconstruction that swaps the vectors and rebuilds the index. -/
inductive Write where
  | call (call : PortWrite)
  | reconstruct (populating : String)

/-- The calls that insert or expire facts or prepare a reconstruction. -/
def InSequence (call : PortWrite) : Prop :=
  match call with
  | .insert_or_reinforce_fact _ => True
  | .ingest_bootstrap_batch_atomic _ _ _ _ _ => True
  | .begin_populating_space _ _ => True
  | .write_backfill_batch _ _ => True
  | _ => call.Feeds

inductive Step (self : SqliteBackend) (s : Indexed hnsw) : Write → Indexed hnsw → Prop where
  | call {call : PortWrite} {notices : List Notice} {db : Db} (member : InSequence call)
      (committed : Commits (call.notices self) s.storage notices db) :
      Step self s (.call call) ⟨db,notices.foldl HnswInner.told s.index⟩
  | reconstruct {populating : String} {outcome : PromoteOutcome} {db : Db} {inner : HnswInner hnsw}
      (promoted : Commits (FactVectors.promote_space populating) s.storage outcome db)
      (built : HnswInner.build_inner hnsw db.toTables self.embed_dim = .ok inner) : Step self s (.reconstruct populating) ⟨db,inner⟩

/-- From an index that has just been built, the writes that are allowed. -/
inductive Run (hnsw : Hnsw) (self : SqliteBackend) (allowed : Indexed hnsw → Write → Prop) : Indexed hnsw → Prop where
  | start {db : Db} {inner : HnswInner hnsw} (built : HnswInner.build_inner hnsw db.toTables self.embed_dim = .ok inner) :
      Run hnsw self allowed ⟨db,inner⟩
  | step {s s' : Indexed hnsw} {write : Write} (before : Run hnsw self allowed s) (may : allowed s write) (step : Step self s write s') :
      Run hnsw self allowed s'

/-- Every slot that a search can come upon holds the vector that the row of its fact holds. -/
def Agrees (s : Indexed hnsw) : Prop := ∀ (i : Nat) id, s.index.index_to_fact[i]? = some id → i ∉ s.index.tombstones →
  ∃ f ∈ s.storage.facts.rows, f.id = id ∧ hnsw.feature s.index.index i = some f.embedding

/-- A fact that is there already is passed with the vector of its row. -/
def OwnVector (self : SqliteBackend) (s : Indexed hnsw) : Write → Prop
  | .call (.insert_or_reinforce_fact fact) => ∀ id ∈ FactStore.existing self fact s.storage.toTables,
      ∀ f ∈ s.storage.facts.rows, f.id = id → f.embedding = fact.embedding
  | _ => True

variable {s s' : Indexed hnsw}

theorem Run.mono {allowed allowed' : Indexed hnsw → Write → Prop} (less : ∀ s write, allowed s write → allowed' s write)
    (run : Run hnsw self allowed s) : Run hnsw self allowed' s := by
  induction run with
  | start built => exact .start built
  | step before may step ih => exact ih.step (less _ _ may) step

/-- What the index means is in the table. -/
structure Sound (s : Indexed hnsw) : Prop where
  index : s.index.Sound
  stored : ∀ id v, s.index.vector id = some v → (id,v) ∈ s.storage.vectors

theorem mem_vectors {t : Tables} {id : FactId} {v : Embedding} : (id,v) ∈ t.vectors ↔ ∃ f ∈ t.facts.rows, f.id = id ∧ f.embedding = v := by
  unfold Tables.vectors
  simp only [List.mem_map,Prod.mk.injEq]

/-- A fact has one vector. -/
theorem vectors_unique {t : Tables} {id : FactId} {v w : Embedding} (left : (id,v) ∈ t.vectors) (right : (id,w) ∈ t.vectors) : v = w := by
  obtain ⟨f,held,rfl,rfl⟩ := mem_vectors.mp left
  obtain ⟨g,held',same,rfl⟩ := mem_vectors.mp right
  rw [t.facts.key_unique held held' same.symm]

theorem agrees_iff (sound : s.index.Sound) : s.Agrees ↔ ∀ id v, s.index.vector id = some v → (id,v) ∈ s.storage.vectors := by
  constructor
  · intro agrees id v held
    obtain ⟨i,there,visible⟩ := sound.live_iff.mpr ⟨v,held⟩
    obtain ⟨f,member,same,stored⟩ := agrees i id there visible
    rw [sound.visible there visible,held] at stored
    exact mem_vectors.mpr ⟨f,member,same,(Option.some.inj stored).symm⟩
  · intro stored i id there visible
    obtain ⟨v,held⟩ := sound.live_iff.mp ⟨i,there,visible⟩
    obtain ⟨f,member,same,rfl⟩ := mem_vectors.mp (stored id v held)
    exact ⟨f,member,same,(sound.visible there visible).trans held⟩

/-- Notices about vectors that are in the table keep the meaning of the index in it. -/
theorem sound_told (sequential : hnsw.Sequential) {vectors : List (FactId × Embedding)} {notices : List Notice} {inner : HnswInner hnsw}
    (sound : inner.Sound) (stored : ∀ id v, inner.vector id = some v → (id,v) ∈ vectors) (told : inserted notices ⊆ vectors) :
    (notices.foldl HnswInner.told inner).Sound ∧ ∀ id v, (notices.foldl HnswInner.told inner).vector id = some v → (id,v) ∈ vectors := by
  induction notices generalizing inner with
  | nil => exact ⟨sound,stored⟩
  | cons notice rest ih =>
    have later : inserted rest ⊆ vectors := fun entry listed => told (by
      obtain ⟨notice,member,same⟩ := List.mem_filterMap.mp listed
      exact List.mem_filterMap.mpr ⟨notice,List.mem_cons_of_mem _ member,same⟩)
    cases notice with
    | insert fact_id embedding =>
      obtain ⟨sound',vector⟩ := IndexRace.told_insert sequential sound fact_id embedding
      refine ih sound' (fun id v held => ?_) later
      rw [vector] at held
      by_cases same : id = fact_id
      · subst same
        rw [Function.update_self] at held
        cases held
        exact told (mem_inserted.mpr List.mem_cons_self)
      · rw [Function.update_of_ne same] at held
        exact stored id v held
    | expire fact_id =>
      obtain ⟨sound',vector⟩ := HnswInner.sound_notify_expire sound fact_id
      refine ih sound' (fun id v held => ?_) later
      change (inner.notify_expire fact_id).vector id = some v at held
      rw [vector] at held
      by_cases same : id = fact_id
      · rw [same,Function.update_self] at held
        cases held
      · rw [Function.update_of_ne same] at held
        exact stored id v held

/-- What is in a fresh index is in the table it was built from. -/
theorem sound_built (sequential : hnsw.Sequential) {db : Db} {inner : HnswInner hnsw}
    (built : HnswInner.build_inner hnsw db.toTables self.embed_dim = .ok inner) : Sound ⟨db,inner⟩ := by
  obtain ⟨inner',built',sound,meaning⟩ := HnswInner.sound_build_inner sequential (HnswInner.sized_of_build built)
  rw [built] at built'
  cases built'
  refine ⟨sound,fun id v held => ?_⟩
  obtain ⟨f,member,same,stored⟩ := (meaning id v).mp held
  exact mem_vectors.mpr ⟨f,(List.mem_filter.mp member).1,same,stored⟩

/-- What a reinforcement found, and that it told of the vector it was given. -/
theorem reinforced_notices {fact : NewFact} {s t : Db} {notices : List Notice}
    (committed : Commits ((PortWrite.insert_or_reinforce_fact fact).notices self) s notices t) :
    (∃ id, notices = [.insert id fact.embedding] ∧ t.vectors = s.vectors ++ [(id,fact.embedding)] ∧ FactStore.existing self fact s.toTables = none) ∨
      ∃ id, notices = [.insert id fact.embedding] ∧ t.vectors = s.vectors ∧ FactStore.existing self fact s.toTables = some id := by
  obtain ⟨flag,m,stored,last⟩ := commits_bind.mp committed
  obtain ⟨rfl,rfl⟩ := commits_pure.mp last
  have vectors := FactStore.vectors_insert_or_reinforce stored
  obtain ⟨_,_,sized,looking⟩ := commits_bind.mp stored
  obtain ⟨_,rfl⟩ := commits_require.mp sized
  obtain ⟨found,_,looked,rest⟩ := commits_bind.mp looking
  obtain ⟨rfl,rfl⟩ := commits_query.mp looked
  cases here : FactStore.existing self fact _ with
  | some id =>
    rw [here] at rest
    obtain ⟨_,m',reinforced,closed⟩ := commits_bind.mp rest
    obtain ⟨rfl,rfl⟩ := commits_pure.mp closed
    exact .inr ⟨id,rfl,vectors.trans (List.append_nil _),rfl⟩
  | none =>
    rw [here] at rest
    obtain ⟨id,m',inserted,closed⟩ := commits_bind.mp rest
    obtain ⟨rfl,rfl⟩ := commits_pure.mp closed
    exact .inl ⟨id,rfl,vectors,rfl⟩

/-- A call that keeps the vectors in the table and tells of vectors in it. -/
theorem sound_grown (sequential : hnsw.Sequential) (sound : s.Sound) {db : Db} {notices : List Notice} (kept : s.storage.vectors ⊆ db.vectors)
    (told : inserted notices ⊆ db.vectors) : Sound ⟨db,notices.foldl HnswInner.told s.index⟩ := by
  obtain ⟨index,stored⟩ := sound_told sequential sound.index (fun id v held => kept (sound.stored id v held)) told
  exact ⟨index,stored⟩

/-- A call that tells of nothing and does not touch the facts. -/
theorem sound_apart (sequential : hnsw.Sequential) (sound : s.Sound) {call : PortWrite} {notices : List Notice} {db : Db}
    (leaves : Leaves Tables.vectors (call.run self)) (committed : Commits (call.notices self) s.storage notices db) (quiet : notices = []) :
    Sound ⟨db,notices.foldl HnswInner.told s.index⟩ := by
  have same := leaves _ _ _ (PortWrite.run_of_notices committed)
  subst quiet
  refine sound_grown sequential sound ?_ (List.nil_subset _)
  rw [same]
  exact List.Subset.refl _

/-- The fact that is found is an active fact of the table. -/
theorem existing_held {t : Tables} {fact : NewFact} {id : FactId} (found : FactStore.existing self fact t = some id) :
    ∃ f ∈ t.facts.rows, f.id = id ∧ f.t_expired = none := by
  obtain ⟨f,first,rfl⟩ := Option.map_eq_some_iff.mp found
  have taken := List.find?_some first
  simp only [Bool.and_eq_true] at taken
  exact ⟨f,List.mem_of_find?_eq_some first,rfl,by simpa using taken.2⟩

/-- One write, a case for each way in which a call feeds the index. -/
theorem sound_step (sequential : hnsw.Sequential) {write : Write} (sound : s.Sound) (own : OwnVector self s write) (step : Step self s write s') :
    s'.Sound := by
  cases step with
  | reconstruct promoted built => exact sound_built sequential built
  | @call call notices db member committed =>
    by_cases feeds : call.Feeds
    · have vectors := PortWrite.vectors_notices feeds committed
      refine sound_grown sequential sound ?_ ?_ <;> rw [vectors]
      · exact List.subset_append_left _ _
      · exact List.subset_append_right _ _
    · cases call with
      | insert_or_reinforce_fact fact =>
        rcases reinforced_notices committed with ⟨id,rfl,vectors,_⟩ | ⟨id,rfl,vectors,here⟩
        · refine sound_grown sequential sound ?_ ?_ <;> rw [vectors]
          · exact List.subset_append_left _ _
          · exact List.subset_append_right _ _
        · -- the vector that is told of is the one that the row has
          obtain ⟨f,listed,same,_⟩ := existing_held here
          have held : (id,fact.embedding) ∈ s.storage.vectors := mem_vectors.mpr ⟨f,listed,same,own id (by rw [here]; rfl) f listed same⟩
          refine sound_grown sequential sound ?_ ?_ <;> rw [vectors]
          · exact List.Subset.refl _
          · exact List.cons_subset.mpr ⟨held,List.nil_subset _⟩
      | ingest_bootstrap_batch_atomic marker skip_if_present facts fingerprint expected_dim =>
        obtain ⟨_,m,ran,last⟩ := commits_bind.mp committed
        obtain ⟨rfl,rfl⟩ := commits_pure.mp last
        obtain ⟨_,_,ingested,closed⟩ := commits_bind.mp ran
        obtain ⟨_,rfl⟩ := commits_pure.mp closed
        obtain ⟨news,vectors,_⟩ := Bootstrap.vectors_ingest_bootstrap_batch_atomic ingested
        refine sound_grown sequential sound ?_ (List.nil_subset _)
        rw [vectors]
        exact List.subset_append_left _ _
      | begin_populating_space name fingerprint =>
        obtain ⟨_,m,ran,last⟩ := commits_bind.mp committed
        refine sound_apart sequential sound ?_ committed (commits_pure.mp last).1
        exact leaves_vectors (EmbeddingSpaces.leaves_begin_populating (fun _ _ => rfl) _)
      | write_backfill_batch space rows =>
        obtain ⟨_,m,ran,last⟩ := commits_bind.mp committed
        refine sound_apart sequential sound ?_ committed (commits_pure.mp last).1
        exact leaves_bind (leaves_vectors (FactVectors.leaves_write_backfill_batch (fun _ _ => rfl) space rows)) fun _ => leaves_pure _
      | _ => first | exact absurd trivial feeds | exact absurd member id

theorem Run.sound (sequential : hnsw.Sequential) (run : Run hnsw self (OwnVector self) s) : s.Sound := by
  induction run with
  | start built => exact sound_built sequential built
  | step before may step ih => exact sound_step sequential ih may step

theorem Run.agrees (sequential : hnsw.Sequential) (run : Run hnsw self (OwnVector self) s) : s.Agrees :=
  (agrees_iff (run.sound sequential).index).mpr (run.sound sequential).stored

/-- After a reinforcement with another vector the index has that one. -/
theorem own_of_agrees (sequential : hnsw.Sequential) (sound : s.Sound) {write : Write} (step : Step self s write s') (agrees : s'.Agrees) :
    OwnVector self s write := by
  cases step with
  | reconstruct promoted built => trivial
  | @call call notices db member committed =>
    cases call with
    | insert_or_reinforce_fact fact =>
      intro id found f listed same
      rcases reinforced_notices committed with ⟨_,_,_,none⟩ | ⟨id',rfl,vectors,here⟩
      · rw [none] at found
        cases found
      · rw [here] at found
        cases found
        obtain ⟨index,vector⟩ := IndexRace.told_insert sequential sound.index id fact.embedding
        have held := (agrees_iff index).mp agrees id fact.embedding (vector ▸ Function.update_self _ _ _)
        rw [vectors] at held
        exact vectors_unique (mem_vectors.mpr ⟨f,listed,same,rfl⟩) held
    | _ => trivial

/-- As long as reinforcements pass the vectors of their rows the index holds what the table
    holds, and the first one that does not is where the two part. -/
theorem agrees_iff_own (sequential : hnsw.Sequential) (run : Run hnsw self (OwnVector self) s) :
    s.Agrees ∧ ∀ write s', Step self s write s' → (s'.Agrees ↔ OwnVector self s write) := by
  refine ⟨run.agrees sequential,fun write s' step => ⟨own_of_agrees sequential (run.sound sequential) step,fun own => ?_⟩⟩
  exact Run.agrees sequential (run.step own step)

namespace Sample
open MemoryEngine.Sample

/-- The same content with another vector. -/
def reworded : NewFact := { newFact "a" with embedding := [0x3F800000] }

/-- A fact that is written beside the index of an empty store. -/
theorem run_of_first : ∃ s : Indexed Sample.hnsw, Run Sample.hnsw backend (OwnVector backend) s ∧
    s.storage.vectors = [(1,(newFact "a").embedding)] ∧ FactStore.existing backend reworded s.storage.toTables = some 1 ∧
    Ends ((PortWrite.insert_or_reinforce_fact reworded).notices backend) s.storage (fun _ _ => true) = true := by
  have sized : ∀ f ∈ Db.fresh.activeFacts, f.embedding.length = backend.embed_dim := by decide
  obtain ⟨inner,built,_,_⟩ := HnswInner.sound_build_inner sequential sized
  have ran : Ends ((PortWrite.insert_fact (newFact "a")).notices backend) Db.fresh (fun _ t =>
      decide (t.vectors = [(1,(newFact "a").embedding)] ∧ FactStore.existing backend reworded t.toTables = some 1 ∧
        Ends ((PortWrite.insert_or_reinforce_fact reworded).notices backend) t (fun _ _ => true) = true)) = true := by
    decide +kernel
  obtain ⟨notices,db,committed,holds⟩ := commits_of_ends ran
  have start_ : Run Sample.hnsw backend (OwnVector backend) ⟨Db.fresh,inner⟩ := .start built
  have step : Step backend ⟨Db.fresh,inner⟩ (.call (.insert_fact (newFact "a"))) ⟨db,notices.foldl HnswInner.told inner⟩ := .call trivial committed
  have own : OwnVector backend ⟨Db.fresh,inner⟩ (.call (.insert_fact (newFact "a"))) := trivial
  exact ⟨_,start_.step own step,of_decide_eq_true holds⟩

end Sample

theorem agrees_iff_own_sample : ∃ s : Indexed Sample.hnsw, s.storage.vectors ≠ [] ∧ s.Agrees ∧
    ∀ write s', Step Sample.backend s write s' → (s'.Agrees ↔ OwnVector Sample.backend s write) := by
  obtain ⟨s,run,vectors,_,_⟩ := Indexed.Sample.run_of_first
  refine ⟨s,?_,agrees_iff_own Sample.sequential run⟩
  rw [vectors]
  exact List.cons_ne_nil _ _

/-- The index takes the vector of the second call, and the row keeps that of the first. -/
theorem index_of_the_caller : ¬ ∀ s : Indexed Sample.hnsw, Run Sample.hnsw Sample.backend (fun _ _ => True) s → s.Agrees := by
  intro always
  obtain ⟨s,run,vectors,found,again⟩ := Indexed.Sample.run_of_first
  obtain ⟨notices,db,committed,_⟩ := commits_of_ends again
  have step : Step Sample.backend s (.call (.insert_or_reinforce_fact Indexed.Sample.reworded)) ⟨db,notices.foldl HnswInner.told s.index⟩ :=
    .call trivial committed
  have agrees := always _ ((run.mono fun _ _ _ => trivial).step trivial step)
  have own := own_of_agrees Sample.sequential (run.sound Sample.sequential) step agrees
  have held : ((1 : FactId),(Sample.newFact "a").embedding) ∈ s.storage.vectors := by
    rw [vectors]
    exact List.mem_singleton_self _
  obtain ⟨f,listed,same,stored⟩ := mem_vectors.mp held
  have equal := own 1 found f listed same
  rw [stored] at equal
  exact absurd equal (by decide)

end Indexed
end MemoryEngine
