import MemoryEngine.Restore
import MemoryEngine.RowRules
import MemoryEngine.SessionImports
import MemoryEngine.Watermark

/-! The transactions that the public operations issue, each with what its operation
checks before it. The commits of an operation are such transactions in a row, and a
rule of all rows holds over a run when it fits every transaction of the run. -/

namespace MemoryEngine
open Time KeyedTable Transaction Ingest Importer

/-- A call that inserts no fact, sets no base importance and merges no metadata. -/
def PortWrite.Routine : PortWrite → Prop
  | insert_fact _ => False
  | insert_or_reinforce_fact _ => False
  | update_fact_base_importance _ _ => False
  | merge_fact_metadata _ _ => False
  | mark_facts_dream_cycled _ _ _ => False
  | insert_fact_atomic _ _ _ => False
  | insert_facts_batch_atomic _ _ _ _ => False
  | resolve_conflict_atomic _ _ _ _ _ _ => False
  | ingest_bootstrap_batch_atomic _ _ _ _ _ => False
  | apply_cycle_deltas_atomic _ _ _ => False
  | apply_plan _ => False
  | promote_atomic _ _ _ _ => False
  | _ => True

/-- A transaction that writes, with what the operation behind it was given. -/
inductive PublicWrite where
  | add_fact (req : AddFactRequest) (embedding : Embedding) (scope_id : Int) (is_pinned : Bool) (fingerprint : EmbeddingFingerprint)
      (now : DateTime)
  | add_facts_batch (entries : List AddFactRequest) (embeddings : List Embedding) (classifier : Option PersistenceClassifier)
      (fingerprint : EmbeddingFingerprint) (now : DateTime)
  | promote (req : PromoteRequest) (now : DateTime)
  | resolve_conflict (decision : CrudDecision) (old_id : FactId) (new_fact : NewFact) (now : DateTime)
  | apply_cycle_report (codec : HistoryCodec) (report : CycleReport) (now : DateTime)
  | import_session (call : ImportCall) (session : PreparedSession)
  | import_memory_file (ctx : PrepareCtx) (file : MemoryFile) (prepared : NewFact × Nat) (fingerprint : EmbeddingFingerprint)
  | consolidate (run : ConsolidationRun) (snapshot : Snapshot) (plan : ConsolidationPlan)
  | routine (call : PortWrite)

namespace PublicWrite

/-- The call of the port. -/
def call (self : SqliteBackend) : PublicWrite → PortWrite
  | add_fact req embedding scope_id is_pinned fingerprint now =>
    .insert_fact_atomic (req.newFact embedding scope_id is_pinned now) fingerprint self.embed_dim
  | add_facts_batch entries embeddings classifier fingerprint now =>
    .insert_facts_batch_atomic (batchFacts entries embeddings (compute_batch_pins entries classifier) now)
      (batchPaths entries embeddings (compute_batch_pins entries classifier)) fingerprint self.embed_dim
  | promote req now => .promote_atomic (req.newFact now) req.scope req.source_fact_ids req.provenance
  | resolve_conflict decision old_id new_fact now =>
    .resolve_conflict_atomic decision old_id new_fact (Resolve.relationFor decision) CONFLICT_EDGE_WEIGHT now
  | apply_cycle_report codec report now => .apply_cycle_deltas_atomic codec report now
  | import_session call session =>
    .ingest_bootstrap_batch_atomic (some session.marker) call.skip_filter (session.facts.map Prod.fst) call.fingerprint self.embed_dim
  | import_memory_file _ _ prepared fingerprint => .ingest_bootstrap_batch_atomic none none [prepared.1] fingerprint self.embed_dim
  | consolidate _ _ plan => .apply_plan plan
  | routine call => call

/-- What the operation has checked or computed by then. The importers measure payloads
    with the serializer of the store. -/
def Issued (self : SqliteBackend) : PublicWrite → Prop
  | add_fact req _ _ _ _ _ => validate_add_fact_request self req = .ok ()
  | add_facts_batch entries _ _ _ _ => ∀ entry ∈ entries, validate_add_fact_request self entry = .ok ()
  | resolve_conflict _ _ new_fact _ => check_new_fact self.float_text new_fact = .ok ()
  | import_session call session => call.libraries.float_text = self.float_text ∧ call.Prepares session
  | import_memory_file ctx file prepared _ =>
    ctx.libraries.float_text = self.float_text ∧ ∃ log, (prepare_memory_file ctx file log).2 = .ok (some prepared)
  | consolidate run snapshot plan => run.compute_plan snapshot = .ok plan
  | routine call => call.Routine
  | _ => True

/-- What a write asks of a rule: the facts it brings along are admitted, and where they
    may be folded into stored ones the rule lets them. -/
def Fits (rule : RowRule) (self : SqliteBackend) (t : Tables) : PublicWrite → Prop
  | add_fact req embedding scope_id is_pinned _ now => rule.Admits self (req.newFact embedding scope_id is_pinned now)
  | add_facts_batch entries embeddings classifier _ now =>
    ∀ fact ∈ batchFacts entries embeddings (compute_batch_pins entries classifier) now, ∀ scope_id, rule.Admits self { fact with scope_id := scope_id }
  | promote req now => ∀ scope_id, rule.Admits self { req.newFact now with scope_id := scope_id }
  | resolve_conflict decision _ new_fact _ => decision = .Add ∨ decision = .Update → rule.Admits self new_fact
  | apply_cycle_report _ report now =>
    (∀ delta ∈ report.deltas, delta.Fits rule self now t) ∧ ∀ id, rule.Merges id (cycleMark report.metadata.cycle_id now)
  | import_session _ session => ∀ prepared ∈ session.facts, ∀ marker_id, rule.Takes self (Bootstrap.linked marker_id prepared.1)
  | import_memory_file _ _ prepared _ => ∀ marker_id, rule.Takes self (Bootstrap.linked marker_id prepared.1)
  | _ => True

end PublicWrite

theorem ConsolidationRun.updates_of_plan {run : ConsolidationRun} {snapshot : Snapshot} {plan : ConsolidationPlan}
    (computed : run.compute_plan snapshot = .ok plan) : plan.dedup.importance_updates = [] := by
  rw [(run.compute_plan_dedup computed).2]
  split
  · rfl
  · exact (Dedup.compute_dedup_spec run.similarity run.dedup_threshold snapshot.active_facts MAX_FACTS_FOR_DEDUP snapshot.last).1.updates

section rules
variable {self : SqliteBackend} {rule : RowRule}

/-- A promotion of a space swaps vectors only. -/
theorem FactVectors.obeys_promote_space (populating : String) : Obeys rule (promote_space populating) := by
  intro s outcome t committed holds f member
  obtain ⟨active,new,_,_,_,_,written,_⟩ := commits_promote_space committed
  rw [written] at member
  obtain ⟨old,there,rfl⟩ := mem_swappedFacts.mp member
  refine rule.carried old _ ?_ (holds old there)
  exact ⟨rfl,rfl,rfl,rfl,le_refl _,fun active => active⟩

/-- A routine call obeys every rule. -/
theorem obeys_routine {call : PortWrite} (routine : call.Routine) : Obeys rule (call.run self) := by
  cases call with
  | insert_event event => exact obeys_void (EventStore.obeys_insert self event)
  | insert_fact fact => exact routine.elim
  | insert_or_reinforce_fact fact => exact routine.elim
  | expire_fact id now => exact FactStore.obeys_expire id now
  | expire_and_invalidate_fact id now => exact FactStore.obeys_expire_and_invalidate id now
  | set_fact_pinned id pinned => exact FactStore.obeys_set_pinned id pinned
  | update_fact_base_importance id base_importance => exact routine.elim
  | update_fact_importance_score id score => exact FactStore.obeys_update_importance_score id score
  | increment_fact_access id now => exact FactStore.obeys_increment_access id now
  | merge_fact_metadata id patch => exact routine.elim
  | mark_facts_dream_cycled ids cycle_id now => exact routine.elim
  | stamp_facts_surfaced fact_ids now => exact obeys_void (FactStore.obeys_stamp_surfaced fact_ids now)
  | hard_delete_facts ids => exact obeys_void (FactStore.obeys_hard_delete_ids ids)
  | insert_edge edge => exact obeys_void (EdgeStore.obeys_insert edge)
  | expire_edge id now => exact EdgeStore.obeys_expire id now
  | expire_edges_by_fact fact_id now => exact obeys_void (EdgeStore.obeys_expire_by_fact fact_id now)
  | hard_delete_edges_by_facts fact_ids => exact obeys_void (EdgeStore.obeys_hard_delete_by_facts fact_ids)
  | insert_scope parent_id label depth => exact obeys_void (ScopeStore.obeys_insert parent_id label depth)
  | ensure_scope_path path => exact obeys_void (ScopeStore.obeys_ensure_path path)
  | insert_fact_atomic fact fingerprint expected_dim => exact routine.elim
  | insert_facts_batch_atomic facts scope_paths fingerprint expected_dim => exact routine.elim
  | insert_cosession_edges_atomic fact_ids relation weight scope_id now => exact obeys_void (SessionEdges.obeys_insert fact_ids relation weight scope_id now)
  | resolve_conflict_atomic decision old_id new_fact relation weight now => exact routine.elim
  | prune_atomic scored to_expire now => exact obeys_void (Forget.obeys_prune_atomic self scored to_expire now)
  | ingest_bootstrap_batch_atomic marker skip_if_present facts fingerprint expected_dim => exact routine.elim
  | insert_summary summary => exact obeys_void (SummaryStore.obeys_insert self summary)
  | delete_summaries_by_level level =>
    have leaves : Leaves Tables.facts (SummaryStore.delete_by_level level) := leaves_execute fun _ => rfl
    exact obeys_of_leaves leaves
  | insert_lineage record provenance => exact obeys_void (LineageStore.obeys_insert record provenance)
  | insert_lineage_raw entry => exact LineageStore.obeys_insert_raw entry
  | delete_lineage wisdom_fact_id => exact obeys_void (LineageStore.obeys_delete wisdom_fact_id)
  | apply_cycle_deltas_atomic codec report now => exact routine.elim
  | apply_plan plan => exact routine.elim
  | promote_atomic fact scope_path source_fact_ids provenance => exact routine.elim
  | store_embedding_fingerprint fp => exact obeys_of_leaves (EmbeddingSpaces.leaves_upsert_active_fingerprint (fun _ _ => rfl) fp)
  | record_embedding_fingerprint_if_absent candidate expected_dim => exact obeys_void (EmbeddingMeta.obeys_record_if_absent candidate expected_dim)
  | set_config key value => exact Config.obeys_set_config key value
  | begin_populating_space name fingerprint => exact obeys_of_leaves (EmbeddingSpaces.leaves_begin_populating (fun _ _ => rfl) _)
  | write_backfill_batch space rows => exact obeys_void (obeys_of_leaves (FactVectors.leaves_write_backfill_batch (fun _ _ => rfl) space rows))
  | promote_space populating => exact obeys_void (FactVectors.obeys_promote_space populating)
  | deprecate_space name =>
    have leaves : Leaves Tables.facts (EmbeddingSpaces.deprecate_space name) := leaves_execute fun _ => rfl
    exact obeys_of_leaves leaves
  | insert_or_dedup_activity libraries activity dedup_window_secs =>
    exact obeys_void (ActivityStore.obeys_insert_or_dedup libraries activity dedup_window_secs)
  | update_activity_status id status promoted_fact_id => exact ActivityStore.obeys_update_status id status promoted_fact_id
  | upsert_checkpoint checkpoint =>
    have leaves : Leaves Tables.facts (CheckpointStore.upsert checkpoint) := leaves_execute fun _ => rfl
    exact obeys_of_leaves leaves
  | insert_archive_manifest entry => exact obeys_void (obeys_bind obeys_query fun _ => obeys_bind (obeys_beside fun _ => rfl) fun _ => obeys_pure _)
  | delete_archive_manifest id => exact obeys_void (obeys_bind obeys_query fun _ => obeys_bind (obeys_beside fun _ => rfl) fun _ => obeys_pure _)
  | commit_archive_atomic entry fact_ids => exact Archive.obeys_commit_archive_atomic entry fact_ids

/-- A write that fits a rule keeps it. -/
theorem PublicWrite.holds_run {write : PublicWrite} {s t : Db} (issued : write.Issued self) (fits : write.Fits rule self s.toTables)
    (committed : Commits ((write.call self).run self) s () t) (holds : rule.Of s.toTables) : rule.Of t.toTables := by
  cases write with
  | add_fact req embedding scope_id is_pinned fingerprint now => exact obeys_void (obeys_insert_fact_atomic fits) s () t committed holds
  | add_facts_batch entries embeddings classifier fingerprint now =>
    exact obeys_void (obeys_insert_facts_batch_atomic fits) s () t committed holds
  | promote req now => exact obeys_void (obeys_promote_atomic fits) s () t committed holds
  | resolve_conflict decision old_id new_fact now => exact obeys_void (Resolve.obeys_resolve_conflict_atomic fits) s () t committed holds
  | apply_cycle_report codec report now =>
    obtain ⟨pass,_,applied,last⟩ := commits_bind.mp committed
    obtain ⟨_,rfl⟩ := commits_pure.mp last
    exact Cycle.holds_report fits.1 fits.2 applied holds
  | import_session call session =>
    refine obeys_void (Bootstrap.obeys_ingest_bootstrap_batch_atomic ?_) s () t committed holds
    intro fact listed
    obtain ⟨prepared,among,rfl⟩ := List.mem_map.mp listed
    exact fits prepared among
  | import_memory_file ctx file prepared fingerprint =>
    refine obeys_void (Bootstrap.obeys_ingest_bootstrap_batch_atomic ?_) s () t committed holds
    exact List.forall_mem_singleton.mpr fits
  | consolidate run snapshot plan =>
    exact obeys_void (Consolidate.obeys_apply_plan (ConsolidationRun.updates_of_plan issued)) s () t committed holds
  | routine call => exact obeys_routine issued s () t committed holds

end rules

/-- Writes in a row, each of them allowed where it commits. -/
inductive Written (self : SqliteBackend) (allowed : Db → PublicWrite → Prop) (s : Db) : Db → Prop where
  | start : Written self allowed s s
  | step {m t : Db} {write : PublicWrite} (before : Written self allowed s m) (issued : write.Issued self) (may : allowed m write)
      (committed : Commits ((write.call self).run self) m () t) : Written self allowed s t

namespace Written
variable {self : SqliteBackend} {allowed : Db → PublicWrite → Prop} {s m t : Db}

/-- A rule that fits every write of a run holds after it. -/
theorem keeps {rule : RowRule} (fits : ∀ m t write, write.Issued self → allowed m write → Commits ((write.call self).run self) m () t →
      write.Fits rule self m.toTables) (run : Written self allowed s t) (holds : rule.Of s.toTables) : rule.Of t.toTables := by
  induction run with
  | start => exact holds
  | step before issued may committed ih => exact PublicWrite.holds_run issued (fits _ _ _ issued may committed) committed ih

theorem trans (first : Written self allowed s m) (second : Written self allowed m t) : Written self allowed s t := by
  induction second with
  | start => exact first
  | step before issued may committed ih => exact ih.step issued may committed

theorem one {write : PublicWrite} (issued : write.Issued self) (may : allowed s write) (committed : Commits ((write.call self).run self) s () t) :
    Written self allowed s t := .step .start issued may committed

/-- The store after an operation comes from the store before by writes that operations issue. -/
abbrev Issues (self : SqliteBackend) (s t : Db) : Prop := Written self (fun _ _ => True) s t

theorem of_routine {call : PortWrite} (routine : call.Routine) (committed : Commits (call.run self) s () t) : Issues self s t :=
  have issued : (PublicWrite.routine call).Issued self := routine
  one issued trivial committed

end Written

open Written

section operations
variable {ctx : MemoryCtx} {s t : Engine}

theorem issues_factScope {scope : Option String} {id : Int} (committed : Commits (factScope scope) s id t) :
    Issues ctx.backend s.storage t.storage := by
  rcases commits_factScope committed with same | ⟨path,ensured⟩
  · rw [same]
    exact .start
  · have routine : (PortWrite.ensure_scope_path path).Routine := trivial
    exact of_routine routine (commits_void ensured)

theorem issues_insert_fact {req : AddFactRequest} {embedding : Embedding} {classifier : Option PersistenceClassifier}
    {fingerprint : EmbeddingFingerprint} {now : DateTime} {id : FactId} (valid : validate_add_fact_request ctx.backend req = .ok ())
    (committed : Commits (insert_fact_with_embedding ctx req embedding classifier fingerprint now) s id t) :
    Issues ctx.backend s.storage t.storage := by
  obtain ⟨scope_id,m,found,ported⟩ := commits_bind.mp committed
  obtain ⟨db,inserted,rfl⟩ := commits_port.mp ported
  have issued : (PublicWrite.add_fact req embedding scope_id (shouldPin req classifier) fingerprint now).Issued ctx.backend := valid
  exact (issues_factScope found).trans (one issued trivial (commits_void inserted))

theorem issues_add_fact {req : AddFactRequest} {embedder : EmbeddingProvider} {classifier : Option PersistenceClassifier} {now : DateTime}
    {id : FactId} (committed : Commits (add_fact ctx req embedder classifier now) s id t) : Issues ctx.backend s.storage t.storage := by
  obtain ⟨_,_,validated,embedding⟩ := commits_bind.mp (commits_gated committed)
  obtain ⟨passed,rfl⟩ := commits_lift.mp validated
  obtain ⟨vector,_,embedded,inserting⟩ := commits_bind.mp embedding
  obtain ⟨_,rfl⟩ := commits_lift.mp embedded
  exact issues_insert_fact passed inserting

theorem issues_insert_validated_batch {entries : List AddFactRequest} {embedder : EmbeddingProvider} {classifier : Option PersistenceClassifier}
    {now : DateTime} {ids : List FactId} (valid : ∀ entry ∈ entries, validate_add_fact_request ctx.backend entry = .ok ())
    (committed : Commits (insert_validated_batch ctx entries embedder classifier now) s ids t) : Issues ctx.backend s.storage t.storage := by
  obtain ⟨embeddings,_,embedded,checking⟩ := commits_bind.mp committed
  obtain ⟨_,rfl⟩ := commits_lift.mp embedded
  split at checking
  · exact absurd checking commits_throw
  · obtain ⟨⟨ids',scope_ids⟩,_,ported,counting⟩ := commits_bind.mp checking
    obtain ⟨db,inserted,rfl⟩ := commits_port.mp ported
    dsimp only at counting
    split at counting
    · exact absurd counting commits_throw
    · obtain ⟨_,m,cached,last⟩ := commits_bind.mp counting
      obtain ⟨_,rfl⟩ := commits_pure.mp last
      rw [storage_cacheLeaves cached]
      have issued : (PublicWrite.add_facts_batch entries embeddings classifier embedder.fingerprint now).Issued ctx.backend := valid
      exact one issued trivial (commits_void inserted)

theorem validateAll_ok {self : SqliteBackend} {entries : List AddFactRequest} (valid : validateAll self entries = .ok ()) :
    ∀ entry ∈ entries, validate_add_fact_request self entry = .ok () := by
  induction entries with
  | nil => simp
  | cons entry rest ih =>
    rw [validateAll,List.foldlM_cons] at valid
    obtain ⟨_,first,later⟩ := made_bind.mp valid
    exact List.forall_mem_cons.mpr ⟨first,ih later⟩

theorem validated_of_valid {self : SqliteBackend} {entry : AddFactRequest} (passes : valid self entry = true) :
    validate_add_fact_request self entry = .ok () := by
  unfold valid at passes
  cases checked : validate_add_fact_request self entry with
  | ok u => rfl
  | error e =>
    rw [checked] at passes
    cases passes

theorem issues_promote {req : PromoteRequest} {now : DateTime} {r : PromotionResult}
    (committed : Commits (promote_with_lineage ctx req now) s r t) : Issues ctx.backend s.storage t.storage := by
  unfold promote_with_lineage at committed
  split at committed
  · exact absurd committed commits_throw
  · obtain ⟨_,_,gated,writing⟩ := commits_bind.mp committed
    obtain ⟨_,rfl⟩ := commits_lift.mp gated
    obtain ⟨⟨result,scope_ids⟩,_,ported,caching⟩ := commits_bind.mp writing
    obtain ⟨db,promoted,rfl⟩ := commits_port.mp ported
    obtain ⟨_,m,cached,last⟩ := commits_bind.mp caching
    obtain ⟨_,rfl⟩ := commits_pure.mp last
    have kept : Keeps (fun s t : Engine => t.storage = s.storage)
        (scope_ids.foldlM (fun (_ : Unit) sid => cache_scope_chain sid) () : Op Unit) := by
      refine Keeps.foldlM ?_ ?_ ?_ scope_ids ()
      · exact fun _ => rfl
      · exact fun _ _ _ first second => second.trans first
      · exact fun _ sid _ _ _ round => storage_cache_scope_chain round
    rw [kept _ _ _ cached]
    have issued : (PublicWrite.promote req now).Issued ctx.backend := trivial
    exact one issued trivial (commits_void promoted)

/-- The ingest operations. -/
theorem issues_ingest {call : IngestCall} {u : Unit} (committed : Commits (call.run ctx) s u t) : Issues ctx.backend s.storage t.storage := by
  cases call with
  | add_fact req embedder classifier now =>
    obtain ⟨id,m,called,last⟩ := commits_bind.mp committed
    obtain ⟨_,rfl⟩ := commits_pure.mp last
    exact issues_add_fact called
  | add_fact_precomputed req embedding declared classifier now =>
    obtain ⟨id,m,called,last⟩ := commits_bind.mp committed
    obtain ⟨_,rfl⟩ := commits_pure.mp last
    obtain ⟨_,_,validated,inserting⟩ := commits_bind.mp (commits_gated called)
    obtain ⟨passed,rfl⟩ := commits_lift.mp validated
    exact issues_insert_fact passed inserting
  | add_facts_batch entries embedder classifier now =>
    obtain ⟨ids,m,called,last⟩ := commits_bind.mp committed
    obtain ⟨_,rfl⟩ := commits_pure.mp last
    have body := commits_gated called
    split at body
    · obtain ⟨_,rfl⟩ := commits_pure.mp body
      exact .start
    · obtain ⟨_,_,validated,inserted⟩ := commits_bind.mp body
      obtain ⟨passed,rfl⟩ := commits_lift.mp validated
      exact issues_insert_validated_batch (validateAll_ok passed) inserted
  | add_facts_batch_partial entries embedder classifier now =>
    obtain ⟨results,m,called,last⟩ := commits_bind.mp committed
    obtain ⟨_,rfl⟩ := commits_pure.mp last
    have body := commits_gated called
    split at body
    · obtain ⟨_,rfl⟩ := commits_pure.mp body
      exact .start
    · obtain ⟨ids,_,inserted,done⟩ := commits_bind.mp body
      obtain ⟨_,rfl⟩ := commits_pure.mp done
      unfold insertKept at inserted
      split at inserted
      · obtain ⟨_,rfl⟩ := commits_pure.mp inserted
        exact .start
      · exact issues_insert_validated_batch (fun entry kept => validated_of_valid (List.mem_filter.mp kept).2) inserted
  | ensure_scope_path path =>
    obtain ⟨id,m,called,last⟩ := commits_bind.mp committed
    obtain ⟨_,rfl⟩ := commits_pure.mp last
    obtain ⟨_,_,gated,ensuring⟩ := commits_bind.mp called
    obtain ⟨_,rfl⟩ := commits_lift.mp gated
    have scope : Commits (factScope (some path)) _ id t := ensuring
    exact issues_factScope scope
  | promote req now =>
    obtain ⟨r,m,called,last⟩ := commits_bind.mp committed
    obtain ⟨_,rfl⟩ := commits_pure.mp last
    exact issues_promote called

theorem issues_resolve_conflict {arbiter : ConflictArbiter} {old_id : FactId} {new_fact : NewFact} {now : DateTime} {r : ConflictResolution}
    (committed : Commits (resolve_conflict ctx arbiter old_id new_fact now) s r t) : Issues ctx.backend s.storage t.storage := by
  obtain ⟨_,_,checked,reading⟩ := commits_bind.mp (commits_gated committed)
  obtain ⟨passed,rfl⟩ := commits_lift.mp checked
  obtain ⟨old_fact,_,read,deciding⟩ := commits_bind.mp reading
  obtain ⟨_,got,rfl⟩ := commits_port.mp read
  obtain ⟨_,_,rfl⟩ := FactStore.commits_get.mp got
  obtain ⟨decision,_,decided,writing⟩ := commits_bind.mp deciding
  obtain ⟨_,rfl⟩ := commits_lift.mp decided
  obtain ⟨ids,_,written,mirroring⟩ := commits_bind.mp writing
  obtain ⟨db,resolved,rfl⟩ := commits_port.mp written
  obtain ⟨_,_,mirrored,closed⟩ := commits_bind.mp mirroring
  obtain rfl := commits_mirror.mp mirrored
  obtain ⟨_,rfl⟩ := commits_pure.mp closed
  have issued : (PublicWrite.resolve_conflict decision old_id new_fact now).Issued ctx.backend := passed
  exact one issued trivial (commits_void resolved)

theorem issues_apply_cycle_report {codec : HistoryCodec} {report : CycleReport} {now : DateTime} {r : ApplyResult}
    (committed : Commits (apply_cycle_report ctx codec report now) s r t) : Issues ctx.backend s.storage t.storage := by
  obtain ⟨pass,applied,_⟩ := commits_apply_cycle_report committed
  have issued : (PublicWrite.apply_cycle_report codec report now).Issued ctx.backend := trivial
  exact one issued trivial (commits_void applied)

/-- The ingest of a session that is prepared. -/
theorem issues_import_session {call : ImportCall} {session : PreparedSession} {s t : Db} {outcome : BootstrapIngestOutcome}
    (measured : call.libraries.float_text = call.ctx.backend.float_text) (prepares : call.Prepares session)
    (committed : Commits (call.ingest session) s outcome t) : Issues call.ctx.backend s t := by
  have issued : (PublicWrite.import_session call session).Issued call.ctx.backend := ⟨measured,prepares⟩
  exact one issued trivial (commits_void committed)

theorem issues_finish_consolidation {run : ConsolidationRun} {snapshot : Snapshot} {plan : ConsolidationPlan} {stats : ConsolidationStats}
    (computed : run.compute_plan snapshot = .ok plan) (committed : Commits (finishConsolidation ctx plan) s stats t) :
    Issues ctx.backend s.storage t.storage := by
  obtain ⟨⟨stats',expired_ids⟩,_,ported,reloading⟩ := commits_bind.mp committed
  obtain ⟨db,applied,rfl⟩ := commits_port.mp ported
  obtain ⟨_,m,reloaded,last⟩ := commits_bind.mp reloading
  obtain ⟨_,rfl⟩ := commits_pure.mp last
  have same : t.storage = db := by
    rcases commits_guarded.mp reloaded with ⟨_,loaded⟩ | ⟨_,rfl⟩
    · obtain ⟨edges,_,read,replacing⟩ := commits_bind.mp loaded
      obtain ⟨db',listed,rfl⟩ := commits_port.mp read
      rw [commits_mirror.mp replacing]
      exact (EdgeStore.commits_list_active.mp listed).2.2
    · rfl
  rw [same]
  have issued : (PublicWrite.consolidate run snapshot plan).Issued ctx.backend := computed
  exact one issued trivial (commits_void applied)

end operations
end MemoryEngine
