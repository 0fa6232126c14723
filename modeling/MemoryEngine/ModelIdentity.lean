import MemoryEngine.Attribution
import MemoryEngine.Dimensions
import MemoryEngine.Watermark

/-! The recorded identity against the embedders that produced the vectors, over a run. The
commits of an operation are steps of their own, so an operation that fails has made some
of them. -/

namespace MemoryEngine
open Time KeyedTable Transaction FactVectors Reconstruct

namespace ModelIdentity

/-- A commit of an operation of the engine, a reconstruction with its embedder. -/
inductive Action where
  | write (self : SqliteBackend) (call : PortWrite)
  | begin_populating (new_fingerprint : EmbeddingFingerprint)
  | backfill (new_fingerprint : EmbeddingFingerprint) (embedder : EmbeddingProvider) (rows : List (FactId × Embedding))
  | promote (new_fingerprint : EmbeddingFingerprint)

variable (produced : EmbeddingFingerprint → Embedding → Prop)

/-- What is passed under an identity was produced under it, and what an embedder returns
    under its own. -/
inductive Step (s : Db) : Action → Db → Prop where
  | write {self : SqliteBackend} {call : PortWrite} {db : Db} (ordinary : ¬ call.OnSpaces) (stamps : call.Stamps)
      (honours : ∀ fp, call.declared = some fp → ∀ v ∈ call.given, produced fp v) (committed : Commits (call.run self) s () db) :
      Step s (.write self call) db
  | begin_populating {fp : EmbeddingFingerprint} {db : Db}
      (committed : Commits (EmbeddingSpaces.begin_populating ⟨space_name_for fp,fp,.Populating⟩) s () db) : Step s (.begin_populating fp) db
  | backfill {fp : EmbeddingFingerprint} {embedder : EmbeddingProvider} {rows : List (FactId × Embedding)} {n : Nat} {db : Db}
      (opened : (s.findSpace (space_name_for fp)).map EmbeddingSpace.fingerprint = some fp) (checked : fp.dim = embedder.fingerprint.dim)
      (honours : ∀ row ∈ rows, produced embedder.fingerprint row.2) (committed : Commits (write_backfill_batch (space_name_for fp) rows) s n db) :
      Step s (.backfill fp embedder rows) db
  | promote {fp : EmbeddingFingerprint} {outcome : PromoteOutcome} {db : Db} (committed : Commits (promote_space (space_name_for fp)) s outcome db) :
      Step s (.promote fp) db

/-- The steps that are all allowed where they are taken. -/
inductive Run (allowed : Db → Action → Prop) (s : Db) : Db → Prop where
  | start : Run allowed s s
  | step {m t : Db} {action : Action} (before : Run allowed s m) (may : allowed m action) (step : Step produced m action t) : Run allowed s t

/-- Vectors that are passed without an identity were produced under the recorded one, and
    the embedder of a reconstruction has the identity that it is for. -/
def Own (s : Db) : Action → Prop
  | .write _ call => call.declared = none → ∀ space, s.activeSpace = some space → ∀ v ∈ call.given, produced space.fingerprint v
  | .backfill fp embedder _ => embedder.fingerprint = fp
  | _ => True

/-- Where there are facts an identity is recorded, and their vectors were produced under it. -/
def Attributed (t : Tables) : Prop :=
  t.facts.rows ≠ [] → ∃ space, t.activeSpace = some space ∧ ∀ f ∈ t.facts.rows, produced space.fingerprint f.embedding

/-- So were the vectors of every space. -/
structure Sound (t : Tables) : Prop where
  facts : ∀ space, t.activeSpace = some space → ∀ f ∈ t.facts.rows, produced space.fingerprint f.embedding
  vectors : ∀ v ∈ t.fact_vectors, ∀ space ∈ t.embedding_spaces, space.name = v.space_id → produced space.fingerprint v.embedding
  stamped : t.Stamped

variable {produced}

theorem Sound.attributed {t : Tables} (sound : Sound produced t) : Attributed produced t := by
  intro present
  cases active : t.activeSpace with
  | none => exact absurd (sound.stamped active).1 present
  | some space => exact ⟨space,rfl,sound.facts space active⟩

theorem sound_fresh : Sound produced Db.fresh.toTables where
  facts := fun _ _ _ member => absurd member List.not_mem_nil
  vectors := fun _ held => absurd held List.not_mem_nil
  stamped := fun _ => ⟨rfl,rfl⟩

/-- A vector that is passed without an identity goes to a store that has one. -/
theorem recorded_of_given {self : SqliteBackend} {call : PortWrite} (stamps : call.Stamps) (undeclared : call.declared = none) {s t : Db}
    (stamped : s.Stamped) (committed : Commits (call.run self) s () t) {v : Embedding} (given : v ∈ call.given) : s.activeSpace ≠ none := by
  cases call with
  | promote_atomic fact scope_path source_fact_ids provenance =>
    obtain ⟨_,_,ran,_⟩ := commits_bind.mp committed
    obtain ⟨_,_,present,_⟩ := commits_bind.mp ran
    exact (EmbeddingMeta.commits_require_present.mp present).1
  | apply_cycle_deltas_atomic codec report now =>
    obtain ⟨delta,listed,brought⟩ := List.mem_flatMap.mp given
    have adds : Cycle.addsVector delta = true := by
      cases delta <;> first | rfl | cases brought
    obtain ⟨_,_,ran,_⟩ := commits_bind.mp committed
    obtain ⟨_,_,_,_,gated,_⟩ := Cycle.commits_report.mp ran
    rw [Cycle.require_identity,guarded,if_pos (List.any_eq_true.mpr ⟨delta,listed,adds⟩)] at gated
    exact (EmbeddingMeta.commits_require_present.mp gated).1
  | resolve_conflict_atomic decision old_id new_fact relation weight now =>
    obtain ⟨_,_,ran,_⟩ := commits_bind.mp committed
    intro none
    have empty := (stamped none).1
    cases decision with
    | Noop => cases given
    | Delete => cases given
    | Add =>
      obtain ⟨_,_,asked,gating⟩ := commits_bind.mp ran
      obtain ⟨rfl,rfl⟩ := FactStore.commits_is_active.mp asked
      obtain ⟨_,_,gated,_⟩ := commits_bind.mp gating
      obtain ⟨f,member,_⟩ := of_decide_eq_true (commits_require.mp gated).1
      rw [empty] at member
      cases member
    | Update =>
      obtain ⟨_,_,expired,_⟩ := commits_bind.mp ran
      obtain ⟨_,_,first,_⟩ := commits_bind.mp expired
      obtain ⟨f,member,_⟩ := (FactStore.commits_updateActive.mp first).1
      rw [empty] at member
      cases member
  | insert_fact fact => exact absurd stamps id
  | insert_or_reinforce_fact fact => exact absurd stamps id
  | insert_fact_atomic => cases undeclared
  | insert_facts_batch_atomic => cases undeclared
  | ingest_bootstrap_batch_atomic => cases undeclared
  | _ => cases given

theorem sound_write {self : SqliteBackend} {call : PortWrite} {s t : Db} (sound : Sound produced s.toTables) (ordinary : ¬ call.OnSpaces)
    (stamps : call.Stamps) (honours : ∀ fp, call.declared = some fp → ∀ v ∈ call.given, produced fp v)
    (own : call.declared = none → ∀ space, s.activeSpace = some space → ∀ v ∈ call.given, produced space.fingerprint v)
    (committed : Commits (call.run self) s () t) : Sound produced t.toTables := by
  have writes := Tables.Writes.of_changes (PortWrite.makes self ordinary _ _ _ committed)
  have guards := PortWrite.guards self ordinary stamps _ _ _ committed
  -- a vector of before counts under the identity of before, which is still the recorded one
  have kept : ∀ space, t.activeSpace = some space → ∀ v ∈ s.embeddings, produced space.fingerprint v := by
    intro space active v held
    obtain ⟨f,member,rfl⟩ := List.mem_map.mp held
    have recorded : s.activeSpace ≠ none := by
      intro none
      rw [(sound.stamped none).1] at member
      cases member
    exact sound.facts space (writes.identity recorded ▸ active) f member
  refine ⟨fun space active f member => ?_,fun v held space member named => ?_,guards.stamped sound.stamped⟩
  · have listed : f.embedding ∈ t.embeddings := List.mem_map_of_mem member
    rcases List.mem_append.mp (PortWrite.brings ordinary stamps committed listed) with old | given
    · exact kept space active _ old
    · cases declared : call.declared with
      | some fp =>
        rcases PortWrite.settles declared committed with same | identity
        · rw [Brings.embeddings_eq,same,← Brings.embeddings_eq] at listed
          exact kept space active _ listed
        · rw [active] at identity
          cases identity
          exact honours _ declared _ given
      | none =>
        have recorded := recorded_of_given stamps declared sound.stamped committed given
        exact own declared space (writes.identity recorded ▸ active) _ given
  · rcases writes.spaces with same | ⟨_,fp,_,stamped⟩
    · exact sound.vectors v (writes.vectors held) space (same ▸ member) named
    · obtain ⟨owner,here,called⟩ := s.foreign.vector_space v (writes.vectors held)
      have listed : owner ∈ t.embedding_spaces := stamped ▸ List.mem_append_left _ here
      rw [space_name_unique t member listed (named.trans called.symm)]
      exact sound.vectors v (writes.vectors held) owner here called

theorem sound_begin_populating {fp : EmbeddingFingerprint} {name : String} {s t : Db} (sound : Sound produced s.toTables)
    (committed : Commits (EmbeddingSpaces.begin_populating ⟨name,fp,.Populating⟩) s () t) : Sound produced t.toTables := by
  rcases EmbeddingSpaces.commits_begin_populating committed with ⟨_,_,_,_,rfl⟩ | ⟨absent,contents⟩
  · exact sound
  · have active : t.activeSpace = s.activeSpace := Handle.activeSpace_begin_populating committed
    refine ⟨fun space served f member => ?_,fun v held space member named => ?_,fun none => ?_⟩
    · rw [contents] at member
      exact sound.facts space (active ▸ served) f member
    · rw [contents] at held member
      rcases List.mem_append.mp member with old | new
      · exact sound.vectors v held space old named
      · -- no vector is in a space that was not there
        obtain ⟨owner,here,called⟩ := s.foreign.vector_space v held
        rw [List.mem_singleton.mp new] at named
        exact absurd (called.trans named.symm) (by simpa using List.find?_eq_none.mp absent owner here)
    · have stamped := sound.stamped (active ▸ none)
      rw [contents]
      exact stamped

theorem sound_backfill {fp : EmbeddingFingerprint} {name : String} {rows : List (FactId × Embedding)} {n : Nat} {s t : Db}
    (sound : Sound produced s.toTables) (opened : (s.findSpace name).map EmbeddingSpace.fingerprint = some fp)
    (honours : ∀ row ∈ rows, produced fp row.2) (committed : Commits (write_backfill_batch name rows) s n t) : Sound produced t.toTables := by
  obtain ⟨contents,added⟩ := commits_write_backfill_batch committed
  obtain ⟨target,found,rfl⟩ := Option.map_eq_some_iff.mp opened
  obtain ⟨here,called⟩ := (findSpace_eq_some _).mp found
  have spaces : t.embedding_spaces = s.embedding_spaces := by rw [contents]
  have active := activeSpace_congr spaces
  refine ⟨fun space served f member => ?_,fun v held space member named => ?_,fun none => ?_⟩
  · rw [contents] at member
    exact sound.facts space (active ▸ served) f member
  · rw [spaces] at member
    rcases added v held with old | ⟨filed,_,listed⟩
    · exact sound.vectors v old space member named
    · rw [space_name_unique _ member here (named.trans (filed.trans called.symm))]
      exact honours _ listed
  · have stamped := sound.stamped (active ▸ none)
    rw [contents]
    exact stamped

/-- The vectors that are swapped in come from the space whose identity is recorded. -/
theorem sound_promote {populating : String} {outcome : PromoteOutcome} {s t : Db} (sound : Sound produced s.toTables)
    (committed : Commits (promote_space populating) s outcome t) : Sound produced t.toTables := by
  obtain ⟨active,new,found,named,_,complete,contents,rfl⟩ := commits_promote_space committed
  obtain ⟨held,called⟩ := (findSpace_eq_some _).mp named
  obtain ⟨serving,_⟩ := (activeSpace_eq_some _).mp found
  have identity := activeSpace_promoted named contents
  refine ⟨fun space served f member => ?_,fun v listed space member named => ?_,fun none => ?_⟩
  · rw [identity] at served
    cases served
    rw [contents] at member
    obtain ⟨old,there,rfl⟩ := mem_swappedFacts.mp member
    cases filled : vectorIn s.toTables populating old.id with
    | none =>
      have unfilled : old ∈ unbackfilled s.toTables populating := List.mem_filter.mpr ⟨there,by simp [filled]⟩
      rw [complete] at unfilled
      cases unfilled
    | some embedding =>
      rw [swapped,filled]
      exact sound.vectors _ (vectorIn_eq_some.mp filled) new held called
  · rw [contents] at listed member
    obtain ⟨old,there,name,fingerprint⟩ := mem_promoted_spaces member
    rw [← fingerprint]
    obtain ⟨kept,_⟩ := List.mem_filter.mp listed
    rcases List.mem_append.mp kept with before | retained
    · exact sound.vectors v before old there (name.trans named)
    · obtain ⟨f,fact,rfl⟩ := List.mem_map.mp retained
      rw [space_name_unique _ there serving (name.trans named)]
      exact sound.facts active found f fact
  · rw [identity] at none
    cases none

theorem sound_step {s t : Db} {action : Action} (sound : Sound produced s.toTables) (own : Own produced s action)
    (step : Step produced s action t) : Sound produced t.toTables := by
  cases step with
  | write ordinary stamps honours committed => exact sound_write sound ordinary stamps honours own committed
  | begin_populating committed => exact sound_begin_populating sound committed
  | backfill opened checked honours committed =>
    cases own
    exact sound_backfill sound opened honours committed
  | promote committed => exact sound_promote sound committed

theorem Run.sound {s t : Db} (run : Run produced (Own produced) s t) (sound : Sound produced s.toTables) : Sound produced t.toTables := by
  induction run with
  | start => exact sound
  | step before may step ih => exact sound_step ih may step

end ModelIdentity

/-- An embedder returns vectors of its own identity. -/
structure EmbeddingProvider.Honours (produced : EmbeddingFingerprint → Embedding → Prop) (embedder : EmbeddingProvider) : Prop where
  embed : ∀ text v, embedder.embed text = .ok v → produced embedder.fingerprint v
  embed_batch : ∀ texts vs, embedder.embed_batch texts = .ok vs → ∀ v ∈ vs, produced embedder.fingerprint v

namespace Bootstrap

/-- The vector of an extracted fact is made from its content. -/
def embedDraft (embedder : EmbeddingProvider) (draft : Except MemoryError PreparedFact) : Except MemoryError PreparedFact := do
  let fact ← draft
  let embedding ← embedder.embed fact.content
  return { fact with embedding := embedding }

/-- What was extracted from a session, embedded fact by fact. -/
def prepare_session (embedder : EmbeddingProvider) (extracted : Except MemoryError (NewEvent × List (Except MemoryError PreparedFact))) :
    Except MemoryError (NewEvent × List PreparedFact) := do
  let (marker,drafts) ← extracted
  let facts ← drafts.mapM (embedDraft embedder)
  return (marker,facts)

/-- One file; a file without a fact is skipped. -/
def bootstrapFile (ctx : MemoryCtx) (embedder : EmbeddingProvider) (file : Except MemoryError (Option PreparedFact)) : Op Unit := do
  let draft ← file
  match draft with
  | none => return ()
  | some draft => do
    let fact ← embedDraft embedder (.ok draft)
    let _ ← bootstrap_memory_file ctx fact embedder.fingerprint

end Bootstrap

/-- Import a directory of memory files, each of them on its own, after the identity. -/
def bootstrap_memory_directory (ctx : MemoryCtx) (scope : Option String)
    (collect : Int → Except MemoryError (List (Except MemoryError (Option PreparedFact)))) (embedder : EmbeddingProvider) : Op Unit := do
  ctx.ensure_open
  ctx.ensure_writable
  let scope_id ← factScope scope
  let _ ← port (EmbeddingMeta.record_if_absent embedder.fingerprint ctx.backend.embed_dim)
  let files ← collect scope_id
  files.foldlM (fun _ file => Bootstrap.bootstrapFile ctx embedder file) ()

/-- An operation that may put vectors into the facts. -/
inductive Operation where
  | ingest (call : IngestCall)
  | bootstrap_session (scope : Option String) (session_id : String) (skip_existing : Bool)
      (extract : Int → Except MemoryError (NewEvent × List (Except MemoryError PreparedFact))) (embedder : EmbeddingProvider)
  | bootstrap_memory_directory (scope : Option String) (collect : Int → Except MemoryError (List (Except MemoryError (Option PreparedFact))))
      (embedder : EmbeddingProvider)
  | resolve_conflict (arbiter : ConflictArbiter) (old_id : FactId) (new_fact : NewFact) (now : DateTime)
  | apply_cycle_report (codec : HistoryCodec) (report : CycleReport) (now : DateTime)
  | reconstruct (new_fingerprint : EmbeddingFingerprint) (embedder : EmbeddingProvider)

namespace Operation

def run (ctx : MemoryCtx) : Operation → Op Unit
  | ingest call => call.run ctx
  | bootstrap_session scope session_id skip_existing extract embedder => do
    let _ ← MemoryEngine.bootstrap_session ctx scope session_id skip_existing (fun scope_id => Bootstrap.prepare_session embedder (extract scope_id))
      embedder.fingerprint
  | bootstrap_memory_directory scope collect embedder => MemoryEngine.bootstrap_memory_directory ctx scope collect embedder
  | resolve_conflict arbiter old_id new_fact now => do let _ ← MemoryEngine.resolve_conflict ctx arbiter old_id new_fact now
  | apply_cycle_report codec report now => do let _ ← MemoryEngine.apply_cycle_report ctx codec report now
  | reconstruct new_fingerprint embedder => do let _ ← MemoryEngine.reconstruct ctx new_fingerprint embedder

/-- Its embedder honours its identity, and a vector that comes with an identity is of it. -/
def Honours (produced : EmbeddingFingerprint → Embedding → Prop) : Operation → Prop
  | ingest (.add_fact _ embedder _ _) => embedder.Honours produced
  | ingest (.add_fact_precomputed _ embedding declared _ _) => produced declared embedding
  | ingest (.add_facts_batch _ embedder _ _) => embedder.Honours produced
  | ingest ( IngestCall.add_facts_batch_partial _ embedder _ _) => embedder.Honours produced
  | bootstrap_session _ _ _ _ embedder => embedder.Honours produced
  | bootstrap_memory_directory _ _ embedder => embedder.Honours produced
  | reconstruct _ embedder => embedder.Honours produced
  | _ => True

end Operation

namespace ModelIdentity
variable {produced : EmbeddingFingerprint → Embedding → Prop}

/-- The steps of an operation, whatever it was given. -/
abbrev Steps (produced : EmbeddingFingerprint → Embedding → Prop) (s t : Db) : Prop := Run produced (fun _ _ => True) s t

theorem Run.trans {allowed : Db → Action → Prop} {s m t : Db} (first : Run produced allowed s m) (second : Run produced allowed m t) :
    Run produced allowed s t := by
  induction second with
  | start => exact first
  | step before may step ih => exact ih.step may step

theorem steps_write (self : SqliteBackend) (call : PortWrite) {s t : Db} (ordinary : ¬ call.OnSpaces) (stamps : call.Stamps)
    (honours : ∀ fp, call.declared = some fp → ∀ v ∈ call.given, produced fp v) (committed : Commits (call.run self) s () t) : Steps produced s t :=
  .step .start trivial (.write ordinary stamps honours committed)

theorem steps_ensure_path {path : String} {s t : Db} {leaf_id : Int} (committed : Commits (ScopeStore.ensure_path path) s leaf_id t) :
    Steps produced s t :=
  steps_write Sample.backend (.ensure_scope_path path) id trivial (fun _ declared => by cases declared) (commits_void committed)

theorem steps_factScope {scope : Option String} {s t : Engine} {id : Int} (committed : Commits (factScope scope) s id t) :
    Steps produced s.storage t.storage := by
  rcases commits_factScope committed with same | ⟨path,ensured⟩
  · rw [same]
    exact .start
  · exact steps_ensure_path ensured

theorem steps_insert_fact {ctx : MemoryCtx} {req : AddFactRequest} {embedding : Embedding} {classifier : Option PersistenceClassifier}
    {fingerprint : EmbeddingFingerprint} {now : DateTime} {s t : Engine} {fact_id : FactId} (honours : produced fingerprint embedding)
    (committed : Commits (insert_fact_with_embedding ctx req embedding classifier fingerprint now) s fact_id t) :
    Steps produced s.storage t.storage := by
  obtain ⟨scope_id,m,found,ported⟩ := commits_bind.mp committed
  obtain ⟨db,inserted,rfl⟩ := commits_port.mp ported
  refine (steps_factScope found).trans (steps_write ctx.backend (.insert_fact_atomic _ fingerprint _) id trivial ?_ (commits_void inserted))
  intro fp declared
  cases declared
  exact List.forall_mem_singleton.mpr honours

theorem steps_insert_validated_batch {ctx : MemoryCtx} {entries : List AddFactRequest} {embedder : EmbeddingProvider}
    {classifier : Option PersistenceClassifier} {now : DateTime} {s t : Engine} {ids : List FactId} (honours : embedder.Honours produced)
    (committed : Commits (insert_validated_batch ctx entries embedder classifier now) s ids t) : Steps produced s.storage t.storage := by
  obtain ⟨embeddings,_,embedded,checking⟩ := commits_bind.mp committed
  obtain ⟨made,rfl⟩ := commits_lift.mp embedded
  split at checking
  · exact absurd checking commits_throw
  · obtain ⟨⟨ids',scope_ids⟩,_,ported,counting⟩ := commits_bind.mp checking
    obtain ⟨db,inserted,rfl⟩ := commits_port.mp ported
    dsimp only at counting
    split at counting
    · exact absurd counting commits_throw
    · obtain ⟨_,m,cached,last⟩ := commits_bind.mp counting
      obtain ⟨_,rfl⟩ := commits_pure.mp last
      rw [storage_cacheLeaves cached]
      refine steps_write ctx.backend (.insert_facts_batch_atomic _ _ embedder.fingerprint _) id trivial ?_ (commits_void inserted)
      intro fp declared v given
      cases declared
      obtain ⟨fact,listed,rfl⟩ := List.mem_map.mp given
      obtain ⟨x,among,rfl⟩ := List.mem_map.mp listed
      exact honours.embed_batch _ _ made _ (List.of_mem_zip (List.of_mem_zip among).1).2

theorem embedded_draft {embedder : EmbeddingProvider} (honours : embedder.Honours produced) {draft : Except MemoryError PreparedFact}
    {fact : PreparedFact} (made : Bootstrap.embedDraft embedder draft = .ok fact) : produced embedder.fingerprint fact.embedding := by
  cases draft with
  | error e => cases made
  | ok extracted =>
    change (embedder.embed extracted.content >>= fun embedding => .ok { extracted with embedding := embedding }) = .ok fact at made
    cases vector : embedder.embed extracted.content with
    | error e =>
      rw [vector] at made
      cases made
    | ok embedding =>
      rw [vector] at made
      cases made
      exact honours.embed _ _ vector

theorem embedded_session {embedder : EmbeddingProvider} (honours : embedder.Honours produced)
    {extracted : Except MemoryError (NewEvent × List (Except MemoryError PreparedFact))} {marker : NewEvent} {facts : List PreparedFact}
    (made : Bootstrap.prepare_session embedder extracted = .ok (marker,facts)) : ∀ fact ∈ facts, produced embedder.fingerprint fact.embedding := by
  cases extracted with
  | error e => cases made
  | ok session =>
    change (session.2.mapM (Bootstrap.embedDraft embedder) >>= fun facts => .ok (session.1,facts)) = .ok (marker,facts) at made
    cases embedded : session.2.mapM (Bootstrap.embedDraft embedder) with
    | error e =>
      rw [embedded] at made
      cases made
    | ok prepared =>
      rw [embedded] at made
      cases made
      intro fact listed
      obtain ⟨draft,_,done⟩ := mapM_made embedded listed
      exact embedded_draft honours done

theorem steps_bootstrap {ctx : MemoryCtx} {marker : Option NewEvent} {skip_if_present : Option EventFilter} {facts : List PreparedFact}
    {fingerprint : EmbeddingFingerprint} {s t : Engine} {outcome : BootstrapIngestOutcome}
    (honours : ∀ fact ∈ facts, produced fingerprint fact.embedding)
    (committed : Commits (port (Bootstrap.ingest_bootstrap_batch_atomic ctx.backend marker skip_if_present (facts.map PreparedFact.newFact) fingerprint
      ctx.backend.embed_dim)) s outcome t) : Steps produced s.storage t.storage := by
  obtain ⟨db,ingested,rfl⟩ := commits_port.mp committed
  refine steps_write ctx.backend (.ingest_bootstrap_batch_atomic _ _ _ fingerprint _) id trivial ?_ (commits_void ingested)
  intro fp declared v given
  cases declared
  obtain ⟨fact,listed,rfl⟩ := List.mem_map.mp given
  obtain ⟨prepared,among,rfl⟩ := List.mem_map.mp listed
  exact honours prepared among

theorem storage_alreadyBootstrapped {skip_filter : Option EventFilter} {s t : Engine} {already : Bool}
    (committed : Commits (alreadyBootstrapped skip_filter) s already t) : t.storage = s.storage := by
  cases skip_filter with
  | none =>
    obtain ⟨_,rfl⟩ := commits_pure.mp committed
    rfl
  | some filter =>
    obtain ⟨present,_,ported,last⟩ := commits_bind.mp committed
    obtain ⟨_,rfl⟩ := commits_pure.mp last
    obtain ⟨db,counted,rfl⟩ := commits_port.mp ported
    obtain ⟨_,_,checked,queried⟩ := commits_bind.mp counted
    obtain ⟨_,rfl⟩ := commits_require.mp checked
    exact (commits_query.mp queried).2

theorem steps_bootstrap_session {ctx : MemoryCtx} {scope : Option String} {session_id : String} {skip_existing : Bool}
    {extract : Int → Except MemoryError (NewEvent × List (Except MemoryError PreparedFact))} {embedder : EmbeddingProvider} {s t : Engine}
    {outcome : BootstrapIngestOutcome} (honours : embedder.Honours produced)
    (committed : Commits (bootstrap_session ctx scope session_id skip_existing (fun scope_id => Bootstrap.prepare_session embedder (extract scope_id))
      embedder.fingerprint) s outcome t) : Steps produced s.storage t.storage := by
  obtain ⟨scope_id,m,found,importing⟩ := commits_bind.mp (commits_gated committed)
  refine (steps_factScope found).trans ?_
  split at importing
  · obtain ⟨_,rfl⟩ := commits_pure.mp importing
    exact .start
  · obtain ⟨already,m',looked,rest⟩ := commits_bind.mp importing
    rw [← storage_alreadyBootstrapped looked]
    split at rest
    · obtain ⟨_,rfl⟩ := commits_pure.mp rest
      exact .start
    · obtain ⟨⟨marker,facts⟩,_,prepared,ported⟩ := commits_bind.mp rest
      obtain ⟨made,rfl⟩ := commits_lift.mp prepared
      exact steps_bootstrap (embedded_session honours made) ported

theorem steps_bootstrapFile {ctx : MemoryCtx} {embedder : EmbeddingProvider} {file : Except MemoryError (Option PreparedFact)} {s t : Engine}
    {u : Unit} (honours : embedder.Honours produced) (committed : Commits (Bootstrap.bootstrapFile ctx embedder file) s u t) :
    Steps produced s.storage t.storage := by
  obtain ⟨draft,_,read,rest⟩ := commits_bind.mp committed
  obtain ⟨_,rfl⟩ := commits_lift.mp read
  cases draft with
  | none =>
    obtain ⟨_,rfl⟩ := commits_pure.mp rest
    exact .start
  | some draft =>
    obtain ⟨fact,_,embedded,importing⟩ := commits_bind.mp rest
    obtain ⟨made,rfl⟩ := commits_lift.mp embedded
    obtain ⟨outcome,m,ported,last⟩ := commits_bind.mp importing
    obtain ⟨_,rfl⟩ := commits_pure.mp last
    exact steps_bootstrap (List.forall_mem_singleton.mpr (embedded_draft honours made)) ported

theorem steps_bootstrap_memory_directory {ctx : MemoryCtx} {scope : Option String}
    {collect : Int → Except MemoryError (List (Except MemoryError (Option PreparedFact)))} {embedder : EmbeddingProvider} {s t : Engine} {u : Unit}
    (honours : embedder.Honours produced) (committed : Commits (bootstrap_memory_directory ctx scope collect embedder) s u t) :
    Steps produced s.storage t.storage := by
  obtain ⟨scope_id,m,found,stamping⟩ := commits_bind.mp (commits_gated committed)
  obtain ⟨_,m',ported,listing⟩ := commits_bind.mp stamping
  obtain ⟨db,recorded,rfl⟩ := commits_port.mp ported
  obtain ⟨files,_,collected,importing⟩ := commits_bind.mp listing
  obtain ⟨_,rfl⟩ := commits_lift.mp collected
  have stamp : Steps produced m.storage db :=
    steps_write ctx.backend (.record_embedding_fingerprint_if_absent embedder.fingerprint ctx.backend.embed_dim) id trivial
      (fun _ declared => by cases declared) (commits_void recorded)
  refine ((steps_factScope found).trans stamp).trans ?_
  have imports : Keeps (fun s t : Engine => Steps produced s.storage t.storage)
      (files.foldlM (fun _ file => Bootstrap.bootstrapFile ctx embedder file) ()) := by
    refine Keeps.foldlM (fun _ => .start) (fun _ _ _ first second => first.trans second) ?_ files ()
    exact fun _ file _ _ _ imported => steps_bootstrapFile honours imported
  exact imports _ _ _ importing

theorem embedded_window {embedder : EmbeddingProvider} (honours : embedder.Honours produced) {target_dim : Nat} {window : List (FactId × String)}
    {rows : List (FactId × Embedding)} (embedded : embedWindow embedder target_dim window = .ok rows) :
    ∀ row ∈ rows, produced embedder.fingerprint row.2 := by
  unfold embedWindow at embedded
  cases made : embedder.embed_batch (window.map Prod.snd) with
  | error e =>
    rw [made] at embedded
    cases embedded
  | ok embeddings =>
    rw [made] at embedded
    change (if embeddings.length ≠ window.length then _ else _) = _ at embedded
    split at embedded
    · cases embedded
    · split at embedded
      · cases embedded
      · cases embedded
        exact fun row listed => honours.embed_batch _ _ made _ (List.of_mem_zip listed).2

/-- The space stays open from batch to batch. -/
theorem steps_backfillFrom {new_fingerprint : EmbeddingFingerprint} {embedder : EmbeddingProvider} {target_dim batch_size fuel : Nat}
    {after_id : FactId} {s t : Engine} {n : Nat} (honours : embedder.Honours produced) (checked : new_fingerprint.dim = embedder.fingerprint.dim)
    (opened : (s.storage.findSpace (space_name_for new_fingerprint)).map EmbeddingSpace.fingerprint = some new_fingerprint)
    (committed : Commits (backfillFrom (space_name_for new_fingerprint) embedder target_dim batch_size fuel after_id) s n t) :
    Steps produced s.storage t.storage ∧
      (t.storage.findSpace (space_name_for new_fingerprint)).map EmbeddingSpace.fingerprint = some new_fingerprint := by
  induction fuel generalizing after_id s n with
  | zero =>
    obtain ⟨_,rfl⟩ := commits_pure.mp committed
    exact ⟨.start,opened⟩
  | succ fuel ih =>
    obtain ⟨window,_,fetched,rest⟩ := commits_bind.mp committed
    obtain ⟨_,queried,rfl⟩ := commits_port.mp fetched
    obtain ⟨_,rfl⟩ := commits_query.mp queried
    split at rest
    · obtain ⟨_,rfl⟩ := commits_pure.mp rest
      exact ⟨.start,opened⟩
    · obtain ⟨rows,_,embedded,writing⟩ := commits_bind.mp rest
      obtain ⟨made,rfl⟩ := commits_lift.mp embedded
      obtain ⟨k,_,ported,looping⟩ := commits_bind.mp writing
      obtain ⟨db,written,rfl⟩ := commits_port.mp ported
      obtain ⟨more,_,looped,last⟩ := commits_bind.mp looping
      obtain ⟨_,rfl⟩ := commits_pure.mp last
      have spaces : db.embedding_spaces = s.storage.embedding_spaces := by rw [(commits_write_backfill_batch written).1]
      have still : (db.findSpace (space_name_for new_fingerprint)).map EmbeddingSpace.fingerprint = some new_fingerprint := by
        rw [Tables.findSpace,spaces]
        exact opened
      obtain ⟨later,open_⟩ := ih still looped
      have first : Steps produced s.storage db := .step .start trivial (.backfill opened checked (embedded_window honours made) written)
      exact ⟨first.trans later,open_⟩

theorem steps_backfill_space {new_fingerprint : EmbeddingFingerprint} {embedder : EmbeddingProvider} {target_dim batch_size : Nat} {s t : Engine}
    {n : Nat} (honours : embedder.Honours produced) (checked : new_fingerprint.dim = embedder.fingerprint.dim)
    (opened : (s.storage.findSpace (space_name_for new_fingerprint)).map EmbeddingSpace.fingerprint = some new_fingerprint)
    (committed : Commits (backfill_space (space_name_for new_fingerprint) embedder target_dim batch_size) s n t) :
    Steps produced s.storage t.storage ∧
      (t.storage.findSpace (space_name_for new_fingerprint)).map EmbeddingSpace.fingerprint = some new_fingerprint := by
  obtain ⟨engine,_,read,looping⟩ := commits_bind.mp committed
  obtain ⟨rfl,rfl⟩ := commits_get.mp read
  exact steps_backfillFrom honours checked opened looping

theorem opened_begin_populating {name : String} {fp : EmbeddingFingerprint} {s t : Db} {u : Unit}
    (committed : Commits (EmbeddingSpaces.begin_populating ⟨name,fp,.Populating⟩) s u t) :
    (t.findSpace name).map EmbeddingSpace.fingerprint = some fp := by
  rcases EmbeddingSpaces.commits_begin_populating committed with ⟨existing,found,_,same,rfl⟩ | ⟨absent,contents⟩
  · exact Option.map_eq_some_iff.mpr ⟨existing,found,same⟩
  · have none : s.embedding_spaces.find? (fun space => space.name == name) = .none := absent
    rw [contents,Tables.findSpace,List.find?_append,none]
    simp

theorem steps_promote {ctx : MemoryCtx} {req : PromoteRequest} {now : DateTime} {s t : Engine} {r : PromotionResult}
    (committed : Commits (promote_with_lineage ctx req now) s r t) : Steps produced s.storage t.storage := by
  unfold promote_with_lineage at committed
  split at committed
  · exact absurd committed commits_throw
  · obtain ⟨_,_,gated,writing⟩ := commits_bind.mp committed
    obtain ⟨_,rfl⟩ := commits_lift.mp gated
    obtain ⟨⟨result,scope_ids⟩,_,ported,caching⟩ := commits_bind.mp writing
    obtain ⟨db,promoted,rfl⟩ := commits_port.mp ported
    obtain ⟨_,m,cached,last⟩ := commits_bind.mp caching
    obtain ⟨_,rfl⟩ := commits_pure.mp last
    have kept : Keeps (fun s t : Engine => t.storage = s.storage)
        (scope_ids.foldlM (fun (_ : Unit) sid => cache_scope_chain sid) () : Op Unit) := by
      refine Keeps.foldlM ?_ ?_ ?_ scope_ids ()
      · exact fun _ => rfl
      · exact fun _ _ _ first second => second.trans first
      · exact fun _ sid _ _ _ round => storage_cache_scope_chain round
    rw [kept _ _ _ cached]
    exact steps_write ctx.backend (.promote_atomic _ req.scope req.source_fact_ids req.provenance) id trivial (fun _ declared => by cases declared)
      (commits_void promoted)

theorem steps_reconstruct {ctx : MemoryCtx} {new_fingerprint : EmbeddingFingerprint} {embedder : EmbeddingProvider} {s t : Engine}
    {outcome : PromoteOutcome} (honours : embedder.Honours produced)
    (committed : Commits (reconstruct ctx new_fingerprint embedder) s outcome t) : Steps produced s.storage t.storage := by
  obtain ⟨_,e₀,gated,body⟩ := commits_bind.mp committed
  obtain ⟨_,rfl⟩ := commits_lift.mp gated
  split at body
  · exact absurd body commits_throw
  · rename_i agree
    have checked := not_not.mp agree
    obtain ⟨_,_,opening,filling⟩ := commits_bind.mp body
    obtain ⟨m,begun,rfl⟩ := commits_port.mp opening
    obtain ⟨_,e₁,filled,catching⟩ := commits_bind.mp filling
    obtain ⟨_,e₂,caught,promoting⟩ := commits_bind.mp catching
    obtain ⟨promoted,_,ported,last⟩ := commits_bind.mp promoting
    obtain ⟨db,swapped,rfl⟩ := commits_port.mp ported
    obtain ⟨_,rfl⟩ := commits_pure.mp last
    obtain ⟨first,opened⟩ := steps_backfill_space honours checked (opened_begin_populating begun) filled
    obtain ⟨second,_⟩ := steps_backfill_space honours checked opened caught
    have begin_ : Steps produced e₀.storage m := .step .start trivial (.begin_populating begun)
    have end_ : Steps produced e₂.storage db := .step .start trivial (.promote swapped)
    exact ((begin_.trans first).trans second).trans end_

/-- The commits of an operation are steps. -/
theorem steps_of_operation {ctx : MemoryCtx} {op : Operation} {s t : Engine} (honours : op.Honours produced)
    (committed : Commits (op.run ctx) s () t) : Steps produced s.storage t.storage := by
  cases op with
  | ingest call =>
    cases call with
    | add_fact req embedder classifier now =>
      obtain ⟨id,m,called,last⟩ := commits_bind.mp committed
      obtain ⟨_,rfl⟩ := commits_pure.mp last
      obtain ⟨_,_,validated,embedding⟩ := commits_bind.mp (commits_gated called)
      obtain ⟨_,rfl⟩ := commits_lift.mp validated
      obtain ⟨vector,_,embedded,inserting⟩ := commits_bind.mp embedding
      obtain ⟨made,rfl⟩ := commits_lift.mp embedded
      exact steps_insert_fact (EmbeddingProvider.Honours.embed honours _ _ made) inserting
    | add_fact_precomputed req embedding declared classifier now =>
      obtain ⟨id,m,called,last⟩ := commits_bind.mp committed
      obtain ⟨_,rfl⟩ := commits_pure.mp last
      obtain ⟨_,_,validated,inserting⟩ := commits_bind.mp (commits_gated called)
      obtain ⟨_,rfl⟩ := commits_lift.mp validated
      exact steps_insert_fact honours inserting
    | add_facts_batch entries embedder classifier now =>
      obtain ⟨ids,m,called,last⟩ := commits_bind.mp committed
      obtain ⟨_,rfl⟩ := commits_pure.mp last
      have body := commits_gated called
      split at body
      · obtain ⟨_,rfl⟩ := commits_pure.mp body
        exact .start
      · obtain ⟨_,_,validated,inserted⟩ := commits_bind.mp body
        obtain ⟨_,rfl⟩ := commits_lift.mp validated
        exact steps_insert_validated_batch honours inserted
    | add_facts_batch_partial entries embedder classifier now =>
      obtain ⟨results,m,called,last⟩ := commits_bind.mp committed
      obtain ⟨_,rfl⟩ := commits_pure.mp last
      have body := commits_gated called
      split at body
      · obtain ⟨_,rfl⟩ := commits_pure.mp body
        exact .start
      · obtain ⟨ids,_,inserted,done⟩ := commits_bind.mp body
        obtain ⟨_,rfl⟩ := commits_pure.mp done
        unfold insertKept at inserted
        split at inserted
        · obtain ⟨_,rfl⟩ := commits_pure.mp inserted
          exact .start
        · exact steps_insert_validated_batch honours inserted
    | ensure_scope_path path =>
      obtain ⟨id,m,called,last⟩ := commits_bind.mp committed
      obtain ⟨_,rfl⟩ := commits_pure.mp last
      obtain ⟨_,_,gated,ensuring⟩ := commits_bind.mp called
      obtain ⟨_,rfl⟩ := commits_lift.mp gated
      have scope : Commits (factScope (some path)) _ id t := ensuring
      exact steps_factScope scope
    | promote req now =>
      obtain ⟨r,m,called,last⟩ := commits_bind.mp committed
      obtain ⟨_,rfl⟩ := commits_pure.mp last
      exact steps_promote called
  | bootstrap_session scope session_id skip_existing extract embedder =>
    obtain ⟨outcome,m,imported,last⟩ := commits_bind.mp committed
    obtain ⟨_,rfl⟩ := commits_pure.mp last
    exact steps_bootstrap_session honours imported
  | bootstrap_memory_directory scope collect embedder => exact steps_bootstrap_memory_directory honours committed
  | resolve_conflict arbiter old_id new_fact now =>
    obtain ⟨r,m,called,last⟩ := commits_bind.mp committed
    obtain ⟨_,rfl⟩ := commits_pure.mp last
    obtain ⟨_,_,checked,reading⟩ := commits_bind.mp (commits_gated called)
    obtain ⟨_,rfl⟩ := commits_lift.mp checked
    obtain ⟨old_fact,_,read,deciding⟩ := commits_bind.mp reading
    obtain ⟨_,got,rfl⟩ := commits_port.mp read
    obtain ⟨_,_,rfl⟩ := FactStore.commits_get.mp got
    obtain ⟨decision,_,decided,writing⟩ := commits_bind.mp deciding
    obtain ⟨_,rfl⟩ := commits_lift.mp decided
    obtain ⟨ids,_,written,mirroring⟩ := commits_bind.mp writing
    obtain ⟨db,resolved,rfl⟩ := commits_port.mp written
    obtain ⟨_,_,mirrored,closed⟩ := commits_bind.mp mirroring
    obtain rfl := commits_mirror.mp mirrored
    obtain ⟨_,rfl⟩ := commits_pure.mp closed
    exact steps_write ctx.backend (.resolve_conflict_atomic decision old_id new_fact _ _ now) id trivial (fun _ declared => by cases declared)
      (commits_void resolved)
  | apply_cycle_report codec report now =>
    obtain ⟨r,m,called,last⟩ := commits_bind.mp committed
    obtain ⟨_,rfl⟩ := commits_pure.mp last
    obtain ⟨pass,_,written,mirroring⟩ := commits_bind.mp (commits_gated called)
    obtain ⟨db,applied,rfl⟩ := commits_port.mp written
    obtain ⟨_,_,mirrored,closed⟩ := commits_bind.mp mirroring
    obtain rfl := commits_mirror.mp mirrored
    obtain ⟨_,rfl⟩ := commits_pure.mp closed
    exact steps_write ctx.backend (.apply_cycle_deltas_atomic codec report now) id trivial (fun _ declared => by cases declared)
      (commits_void applied)
  | reconstruct new_fingerprint embedder =>
    obtain ⟨outcome,m,called,last⟩ := commits_bind.mp committed
    obtain ⟨_,rfl⟩ := commits_pure.mp last
    exact steps_reconstruct honours called

/-- As long as vectors without an identity are of the recorded one, and reconstructions have
    embedders of the identity they are for, the facts are what the identity says. -/
theorem attributed_of_own {t : Db} (run : Run produced (Own produced) Db.fresh t) : Attributed produced t.toTables :=
  (run.sound sound_fresh).attributed

namespace Sample
open MemoryEngine.Sample

/-- An identity of one dimension. -/
def identity (model : String) : EmbeddingFingerprint := ⟨model,"p",1,none,"f32"⟩

/-- Each model has one vector. -/
def vector (fp : EmbeddingFingerprint) : Embedding := if fp.model = "m" then [0x3F000000] else if fp.model = "n" then [0x3F400000] else [0x3F800000]

def producedBy (fp : EmbeddingFingerprint) (v : Embedding) : Prop := v = vector fp

def model (name : String) : EmbeddingProvider where
  embed := fun _ => .ok (vector (identity name))
  embed_batch := fun texts => .ok (texts.map fun _ => vector (identity name))
  fingerprint := identity name

theorem model_honours (name : String) : (model name).Honours producedBy := by
  constructor
  · intro text v embedded
    cases embedded
    rfl
  · intro texts vs embedded v listed
    cases embedded
    obtain ⟨_,_,rfl⟩ := List.mem_map.mp listed
    rfl

def stored : Operation := .ingest (.add_fact ⟨"a",.Semantic,none,none,none⟩ (model "m") none moment)

/-- For the identity of one model with another. -/
def mixed : Operation := .reconstruct (identity "k") (model "n")

end Sample

theorem attributed_of_own_sample : ∃ t : Db, t.facts.rows ≠ [] ∧ Attributed Sample.producedBy t.toTables := by
  have ran : Ends ((PortWrite.insert_fact_atomic (MemoryEngine.Sample.newFact "a") (Sample.identity "m") 1).run MemoryEngine.Sample.backend) Db.fresh
      (fun _ t => decide (t.facts.rows ≠ [])) = true := by decide +kernel
  obtain ⟨_,t,committed,present⟩ := commits_of_ends ran
  have honours : ∀ fp, (PortWrite.insert_fact_atomic (MemoryEngine.Sample.newFact "a") (Sample.identity "m") 1).declared = some fp →
      ∀ v ∈ (PortWrite.insert_fact_atomic (MemoryEngine.Sample.newFact "a") (Sample.identity "m") 1).given, Sample.producedBy fp v := by
    intro fp declared v given
    cases declared
    rw [List.mem_singleton.mp given]
    rfl
  have own : Own Sample.producedBy Db.fresh (.write MemoryEngine.Sample.backend
      (.insert_fact_atomic (MemoryEngine.Sample.newFact "a") (Sample.identity "m") 1)) := fun undeclared => by cases undeclared
  have run : Run Sample.producedBy (Own Sample.producedBy) Db.fresh t := .step .start own (.write id trivial honours committed)
  exact ⟨t,of_decide_eq_true present,attributed_of_own run⟩

/-- The vectors of one model under the identity of another. -/
theorem mixed_identities : ¬ ∀ t : Db, Run Sample.producedBy (fun _ _ => True) Db.fresh t → Attributed Sample.producedBy t.toTables := by
  intro always
  have ran : Ends (Sample.stored.run MemoryEngine.Sample.ctx) MemoryEngine.Sample.blank (fun _ m =>
      Ends (Sample.mixed.run MemoryEngine.Sample.ctx) m (fun _ t => decide (t.storage.activeSpace.map EmbeddingSpace.fingerprint = some (Sample.identity "k") ∧
        t.storage.embeddings = [Sample.vector (Sample.identity "n")]))) = true := by decide +kernel
  obtain ⟨_,m,stored,later⟩ := commits_of_ends ran
  obtain ⟨_,t,mixed,holds⟩ := commits_of_ends later
  obtain ⟨recorded,vectors⟩ := of_decide_eq_true holds
  have of_stored : Sample.stored.Honours Sample.producedBy := Sample.model_honours "m"
  have of_mixed : Sample.mixed.Honours Sample.producedBy := Sample.model_honours "n"
  have first : Steps Sample.producedBy Db.fresh m.storage := steps_of_operation of_stored stored
  have run := first.trans (steps_of_operation of_mixed mixed)
  have listed : Sample.vector (Sample.identity "n") ∈ t.storage.embeddings := by
    rw [vectors]
    exact List.mem_singleton_self _
  obtain ⟨f,member,same⟩ := List.mem_map.mp listed
  obtain ⟨space,active,produced⟩ := always _ run (List.ne_nil_of_mem member)
  rw [active] at recorded
  have named : space.fingerprint = Sample.identity "k" := Option.some.inj recorded
  have made := produced f member
  rw [named,same] at made
  change Sample.vector (Sample.identity "n") = Sample.vector (Sample.identity "k") at made
  exact absurd made (by decide)

end ModelIdentity
end MemoryEngine
