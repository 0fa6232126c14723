import MemoryEngine.DefaultDreamCycle
import MemoryEngine.CycleWindow

/-! Rounds of the shipped cycle. A store that was reached by adding facts, recording
outcomes and applying reports accepts what the cycle proposes about it, and what the
report processed or created is not selected again. -/

namespace MemoryEngine
open Time KeyedTable Transaction

/-- The delta adjusts one fact within the bounds, expires it or promotes it. -/
inductive CycleDelta.Treats (id : FactId) : CycleDelta → Prop where
  | adjust {adjustment : Int16} (bounded : ¬ adjustment.abs > MAX_ADJUSTMENT) : Treats id (.AdjustScore id adjustment)
  | quarantine {reason : String} : Treats id (.Quarantine id reason)
  | promote {provenance : PromotionProvenance} : Treats id (.Promote id provenance)

namespace CycleDelta
variable {id : FactId} {delta : CycleDelta}

theorem Treats.newFact (treats : delta.Treats id) : delta.newFact = none := by
  cases treats <;> rfl

theorem Treats.addsVector (treats : delta.Treats id) : Cycle.addsVector delta = false := by
  cases treats <;> rfl

theorem Treats.tags (treats : delta.Treats id) : delta.tags = 0 := by
  cases treats <;> rfl

theorem Treats.storable (treats : delta.Treats id) {t : Tables} (root : t.scopes.Has 1) (tags : Nat) : delta.Storable t tags := by
  cases treats with
  | adjust bounded => trivial
  | quarantine => trivial
  | promote => exact root

end CycleDelta

theorem storableAll_treats {deltas : List CycleDelta} {t : Tables} (root : t.scopes.Has 1) (treats : ∀ delta ∈ deltas, ∃ id, delta.Treats id)
    (tags : Nat) : StorableAll t tags deltas := by
  induction deltas generalizing tags with
  | nil => trivial
  | cons delta rest ih =>
    obtain ⟨⟨id,here⟩,others⟩ := List.forall_mem_cons.mp treats
    exact ⟨here.storable root tags,ih others _⟩

namespace Cycle
variable {self : SqliteBackend}

/-- Validation accepts a treatment of an active fact that the report did not expire so far. -/
theorem validated_treats {delta : CycleDelta} {id : FactId} {expired : List FactId} {s : Db} (treats : delta.Treats id)
    (live : Live self s id) (away : id ∉ expired) : Commits (validateDelta self expired delta) s (delta.gone ++ expired) s := by
  have active : Commits (require_active self id (.UnknownFact id) expired) s () s := require_active_commits _ live away
  cases treats with
  | adjust bounded =>
    exact commits_bind.mpr ⟨(),s,commits_require.mpr ⟨bounded,rfl⟩,commits_bind.mpr ⟨(),s,active,commits_pure.mpr ⟨rfl,rfl⟩⟩⟩
  | quarantine => exact commits_bind.mpr ⟨(),s,active,commits_pure.mpr ⟨rfl,rfl⟩⟩
  | promote => exact commits_bind.mpr ⟨(),s,active,commits_pure.mpr ⟨rfl,rfl⟩⟩

/-- Treatments of different active facts are accepted one after the other. -/
theorem validated_all_treats {deltas : List CycleDelta} {expired : List FactId} {s : Db}
    (treats : ∀ delta ∈ deltas, ∃ id, delta.Treats id ∧ Live self s id) (once : (deltas.flatMap CycleDelta.subjects).Nodup)
    (away : ∀ id ∈ deltas.flatMap CycleDelta.subjects, id ∉ expired) :
    ∃ expired', Commits (deltas.foldlM (validateDelta self) expired) s expired' s := by
  induction deltas generalizing expired with
  | nil => exact ⟨expired,commits_pure.mpr ⟨rfl,rfl⟩⟩
  | cons delta rest ih =>
    obtain ⟨⟨id,here,live⟩,others⟩ := List.forall_mem_cons.mp treats
    have about : delta.subjects = [id] := by cases here <;> rfl
    have only : ∀ other ∈ delta.gone, other = id := by
      cases here with
      | quarantine => exact fun other listed => List.mem_singleton.mp listed
      | _ => exact fun _ listed => absurd listed List.not_mem_nil
    rw [List.flatMap_cons,about,List.singleton_append] at once away
    obtain ⟨apart,distinct⟩ := List.nodup_cons.mp once
    have first := validated_treats here live (away id List.mem_cons_self)
    have away' : ∀ other ∈ rest.flatMap CycleDelta.subjects, other ∉ delta.gone ++ expired := by
      intro other listed
      rw [List.mem_append]
      rintro (gone | before)
      · rw [only other gone] at listed
        exact apart listed
      · exact away other (List.mem_cons_of_mem _ listed) before
    obtain ⟨expired',later⟩ := ih others distinct away'
    exact ⟨expired',by rw [List.foldlM_cons]; exact commits_bind.mpr ⟨_,s,first,later⟩⟩

/-- A report that treats active facts, each of them once, is applied. -/
theorem treats_commit {codec : HistoryCodec} {report : CycleReport} {s : Db} (now : DateTime)
    (treats : ∀ delta ∈ report.deltas, ∃ id, delta.Treats id ∧ Live self s id) (once : (report.deltas.flatMap CycleDelta.subjects).Nodup)
    (processed : ∀ id ∈ report.metadata.processed_ids, ∃ f ∈ s.facts.rows, f.id = id ∧ f.Readable self.embed_dim)
    (root : s.scopes.Has 1) (stamped : s.Stamped) (reads : HistoryReads codec s.toTables) :
    ∃ pass t, Commits (apply_cycle_deltas_atomic self codec report now) s pass t := by
  have each : ∀ delta ∈ report.deltas, ∃ id, delta.Treats id := by
    intro delta listed
    obtain ⟨id,here,_⟩ := treats delta listed
    exact ⟨id,here⟩
  obtain ⟨expired,checked⟩ := validated_all_treats treats once fun _ _ => List.not_mem_nil
  have validated : Commits (validate_report self report) s () s := commits_bind.mpr ⟨expired,s,checked,validated_processed processed⟩
  have present : Commits (require_identity report) s () s := by
    refine commits_guarded.mpr (.inr ⟨fun brings => ?_,rfl⟩)
    obtain ⟨delta,listed,adds⟩ := List.any_eq_true.mp brings
    obtain ⟨id,here⟩ := each delta listed
    rw [here.addsVector] at adds
    cases adds
  have parse : ∀ delta ∈ report.deltas, ∀ nf ∈ delta.newFact, nf.metadata.Parses := by
    intro delta listed nf brought
    obtain ⟨id,here⟩ := each delta listed
    rw [here.newFact] at brought
    cases brought
  have passed : ∃ pass m, Commits (report.deltas.foldlM (applyDelta self now) {}) s pass m := by
    cases deltas : report.deltas with
    | nil => exact ⟨{},s,commits_pure.mpr ⟨rfl,rfl⟩⟩
    | cons delta rest =>
      obtain ⟨id,_,live⟩ := treats delta (by rw [deltas]; exact List.mem_cons_self)
      have identity : s.activeSpace ≠ none := by
        intro none
        obtain ⟨f,member,_⟩ := live
        rw [(stamped none).1] at member
        cases member
      rw [← deltas]
      exact (commits_deltas_iff now {} identity (Behind.start s) checked).mpr (storableAll_treats root each 0)
  obtain ⟨pass,m,applied⟩ := passed
  obtain ⟨t,committed⟩ := report_commits validated present applied parse reads
  exact ⟨pass,t,committed⟩

/-- A report does not touch the scopes. -/
theorem scopes_report {codec : HistoryCodec} {report : CycleReport} {now : DateTime} {s t : Db} {pass : ApplyPass}
    (committed : Commits (apply_cycle_deltas_atomic self codec report now) s pass t) : t.scopes = s.scopes := by
  obtain ⟨m,_,_,validated,_,applied,marked,dated,appended⟩ := commits_report.mp committed
  obtain ⟨⟨_,checked⟩,_⟩ := valid_report validated
  obtain ⟨_,_,_,_,behind,_⟩ := behind_deltas (Behind.start s) checked applied
  have written := (sameButMarks_closing marked dated appended).rest
  have kept : t.scopes = m.scopes := by rw [written]
  exact kept.trans behind.evolved.scopes

end Cycle

namespace CycleRounds

/-- The stores that calls of `add_fact`, `record_outcome` and `apply_cycle_report` lead to. A
    call of `add_fact` that fails may leave its scope behind. -/
inductive Reached (codec : HistoryCodec) : Db → Prop where
  | fresh : Reached codec Db.fresh
  | scope {path : String} {id : Int} {s t : Db} (before : Reached codec s) (committed : Commits (ScopeStore.ensure_path path) s id t) :
      Reached codec t
  | add_fact {ctx : MemoryCtx} {req : AddFactRequest} {embedder : EmbeddingProvider} {classifier : Option PersistenceClassifier} {now : DateTime}
      {s t : Engine} {id : FactId} (before : Reached codec s.storage) (committed : Commits (MemoryEngine.add_fact ctx req embedder classifier now) s id t) :
      Reached codec t.storage
  | record_outcome {ctx : MemoryCtx} {fact_id : FactId} {outcome : Outcome} {now : DateTime} {s t : Engine} {id : Int}
      (before : Reached codec s.storage) (committed : Commits (MemoryEngine.record_outcome ctx fact_id outcome now) s id t) : Reached codec t.storage
  | report {ctx : MemoryCtx} {report : CycleReport} {now : DateTime} {s t : Engine} {result : ApplyResult}
      (before : Reached codec s.storage) (committed : Commits (apply_cycle_report ctx codec report now) s result t) : Reached codec t.storage

/-- What a report relies on in a store. -/
structure Ready (codec : HistoryCodec) (t : Tables) : Prop where
  rooted : t.Rooted
  stamped : t.Stamped
  legible : Cycle.HistoryReads codec t

variable {codec : HistoryCodec}

theorem ready_ensure_path {path : String} {id : Int} {s t : Db} (ready : Ready codec s.toTables)
    (committed : Commits (ScopeStore.ensure_path path) s id t) : Ready codec t.toTables where
  rooted := (ScopeStore.ensured ready.rooted committed).rooted
  stamped := by
    have guards : Guards (ScopeStore.ensure_path path) := guards_quiet 0 fun _ => ScopeStore.makes_ensure_path path
    exact (guards s id t committed).stamped ready.stamped
  legible := by
    have kept : Leaves (fun t => (t.config,t.facts)) (ScopeStore.ensure_path path) := leaves_ensure_path (fun _ _ => rfl) path
    rw [Cycle.HistoryReads,(Prod.mk.inj (kept _ _ _ committed)).1]
    exact ready.legible

theorem ready_insert {self : SqliteBackend} {fact : NewFact} {fingerprint : EmbeddingFingerprint} {id : FactId} {s t : Db}
    (ready : Ready codec s.toTables) (committed : Commits (Ingest.insert_fact_atomic self fact fingerprint self.embed_dim) s id t) :
    Ready codec t.toTables where
  rooted := ready.rooted.congr (leaves_insert_fact_atomic _ _ _ s id t committed)
  stamped := (Ingest.guards_insert_fact_atomic self fact fingerprint _ s id t committed).stamped ready.stamped
  legible := by
    rw [Cycle.HistoryReads,(CycleWindow.commits_insert_fact_atomic committed).1]
    exact ready.legible

/-- An outcome is one more event. -/
theorem commits_record_outcome {ctx : MemoryCtx} {fact_id : FactId} {outcome : Outcome} {now : DateTime} {s t : Engine} {id : Int}
    (committed : Commits (MemoryEngine.record_outcome ctx fact_id outcome now) s id t) :
    t.storage.toTables = { s.storage.toTables with events := t.storage.events } := by
  obtain ⟨_,_,gated,rest⟩ := commits_bind.mp committed
  obtain ⟨_,rfl⟩ := commits_lift.mp gated
  obtain ⟨_,_,ported,recording⟩ := commits_bind.mp rest
  obtain ⟨_,got,rfl⟩ := commits_port.mp ported
  obtain ⟨_,_,rfl⟩ := FactStore.commits_get.mp got
  obtain ⟨_,inserted,rfl⟩ := commits_port.mp recording
  obtain ⟨_,written⟩ := EventStore.commits_insert.mp inserted
  rw [written]

theorem Reached.ready (reads : ∀ history, ∃ back, codec.from_str (codec.to_string history) = .ok back) {s : Db} (reached : Reached codec s) :
    Ready codec s.toTables := by
  induction reached with
  | fresh => exact ⟨Db.fresh_rooted,fun _ => ⟨rfl,rfl⟩,fun text there => by cases there⟩
  | scope before committed ih => exact ready_ensure_path ih committed
  | add_fact before committed ih =>
    obtain ⟨embedding,scope_id,m,found,inserted⟩ := commits_add_fact committed
    rcases commits_factScope found with same | ⟨path,ensured⟩
    · rw [same] at inserted
      exact ready_insert ih inserted
    · exact ready_insert (ready_ensure_path ih ensured) inserted
  | record_outcome before committed ih =>
    have written := commits_record_outcome committed
    obtain ⟨rooted,stamped,legible⟩ := ih
    exact ⟨rooted.congr (by rw [written]),by rw [written]; exact stamped,by rw [written]; exact legible⟩
  | report before committed ih =>
    obtain ⟨pass,applied,_⟩ := commits_apply_cycle_report committed
    refine ⟨ih.rooted.congr (Cycle.scopes_report applied),?_,Cycle.historyReads_report reads applied⟩
    exact (Cycle.guards_apply_cycle_deltas_atomic _ codec _ _ _ _ _ applied).stamped ih.stamped

/-- The shipped cycle selects the facts of its window. -/
theorem selects_default (ctx : MemoryCtx) (cosine_similarity : Embedding → Embedding → F32) (cycle : DefaultDreamCycle) (ran_at : DateTime) :
    CycleWindow.Selects ctx (cycle.toDreamCycle ctx cosine_similarity ran_at) := by
  refine ⟨fun c facts => do
    let promoted := DefaultDreamCycle.promotions facts cosine_similarity cycle.config ran_at
    let outcome_counts ← port (EventStore.count_outcome_signals_batch ((facts.map Fact.id).filter fun id => id ∉ promoted.map Prod.fst))
    return ⟨DefaultDreamCycle.deltas facts promoted outcome_counts,⟨[],[],[]⟩,
      ⟨DefaultDreamCycle.cycle_id c.prior_reports,ran_at,c.time_window,facts.length,METHOD_VERSION,facts.map Fact.id⟩⟩,?_,fun _ => rfl⟩
  intro c facts s report t committed
  obtain ⟨_,_,counted,last⟩ := commits_bind.mp committed
  obtain ⟨_,signals,rfl⟩ := commits_port.mp counted
  obtain rfl := DefaultDreamCycle.reads_count signals
  exact (commits_pure.mp last).2

section round
variable {ctx : MemoryCtx} {libraries : CycleLibraries} {cosine_similarity : Embedding → Embedding → F32} {cycle : DefaultDreamCycle}
  {ran_at now : DateTime} {s t : Engine} {report : CycleReport}

/-- A run of the shipped cycle reads the store, selects from it and plans. -/
theorem commits_round (ran : Commits (run_dream_cycle ctx libraries (cycle.toDreamCycle ctx cosine_similarity ran_at) now) s report t) :
    t = s ∧ ctx.ensure_open = .ok () ∧ ctx.ensure_writable = .ok () ∧ ∃ (facts : List Fact) (window : TimeWindow)
      (outcome_counts : FactId → Option OutcomeCounts), facts = FactStore.undreamtRows window.start window.end [] none s.storage.toTables ∧
        (∀ f ∈ facts, f.Readable ctx.backend.embed_dim) ∧ report.metadata.processed_ids = facts.map Fact.id ∧
          report.deltas = DefaultDreamCycle.deltas facts (DefaultDreamCycle.promotions facts cosine_similarity cycle.config ran_at) outcome_counts := by
  obtain ⟨_,_,opened,gating⟩ := commits_bind.mp ran
  obtain ⟨isOpen,rfl⟩ := commits_lift.mp opened
  obtain ⟨_,_,gated,building⟩ := commits_bind.mp gating
  obtain ⟨writable,rfl⟩ := commits_lift.mp gated
  obtain ⟨c,m,built,running⟩ := commits_bind.mp building
  obtain ⟨unchanged,_⟩ := CycleWindow.commits_build_cycle_context built
  rw [unchanged] at running
  obtain ⟨same,facts,outcome_counts,selected,readable,processed,proposed⟩ := DefaultDreamCycle.commits_run running
  exact ⟨same,isOpen,writable,facts,c.time_window,outcome_counts,selected,readable,processed,proposed⟩

/-- The selection lists a fact once. -/
theorem undreamtRows_nodup (start stop : DateTime) (db : Db) : ((FactStore.undreamtRows start stop [] none db.toTables).map Fact.id).Nodup := by
  rw [FactStore.undreamtRows]
  refine ((Ranking.descending_perm _ _).map Fact.id).nodup_iff.mpr ?_
  exact db.facts.keys_nodup.sublist (List.filter_sublist.map _)

/-- Behind open gates the call does what the transaction does. -/
theorem apply_commits (isOpen : ctx.ensure_open = .ok ()) (writable : ctx.ensure_writable = .ok ()) {db : Db} {pass : Cycle.ApplyPass}
    (applied : Commits (Cycle.apply_cycle_deltas_atomic ctx.backend codec report now) s.storage pass db) :
    ∃ u, Commits (apply_cycle_report ctx codec report now) s pass.result u := by
  refine ⟨⟨db,pass.supersede_edges.foldl mirrorSupersede s.graph,s.scope_tree⟩,?_⟩
  refine commits_bind.mpr ⟨(),s,commits_lift.mpr ⟨isOpen,rfl⟩,commits_bind.mpr ⟨(),s,commits_lift.mpr ⟨writable,rfl⟩,?_⟩⟩
  refine commits_bind.mpr ⟨pass,{ s with storage := db },commits_port.mpr ⟨db,applied,rfl⟩,?_⟩
  exact commits_bind.mpr ⟨(),_,commits_mirror.mpr rfl,commits_pure.mpr ⟨rfl,rfl⟩⟩

/-- What the shipped cycle proposes about a fact treats it. -/
theorem treats_of_mem {facts : List Fact} {promoted : List (FactId × PromotionProvenance)} {outcome_counts : FactId → Option OutcomeCounts}
    (selected : ∀ id ∈ promoted.map Prod.fst, ∃ f ∈ facts, f.id = id) {delta : CycleDelta}
    (listed : delta ∈ DefaultDreamCycle.deltas facts promoted outcome_counts) : ∃ f ∈ facts, delta.Treats f.id := by
  rcases DefaultDreamCycle.mem_deltas.mp listed with ⟨p,there,rfl⟩ | ⟨f,held,_,yields⟩
  · obtain ⟨f,held,same⟩ := selected p.1 (List.mem_map_of_mem there)
    exact ⟨f,held,by rw [same]; exact .promote⟩
  · rcases DefaultDreamCycle.rescore_eq_some yields with ⟨reason,rfl⟩ | ⟨adjustment,rfl,bounded⟩
    · exact ⟨f,held,.quarantine⟩
    · exact ⟨f,held,.adjust bounded⟩

/-- A report that was just applied leaves no undreamt fact that it processed or created. -/
theorem selected_afterwards {s t : Db} {pass : Cycle.ApplyPass} (applied : Commits (Cycle.apply_cycle_deltas_atomic ctx.backend codec report now) s pass t)
    {window : TimeWindow} {f : Fact} (selected : f ∈ FactStore.undreamtRows window.start window.end [] none t.toTables) :
    f.id ∉ report.metadata.processed_ids ∧ s.facts.Has f.id := by
  obtain ⟨member,undreamt,_⟩ := CycleWindow.mem_undreamtRows.mp selected
  obtain ⟨g,held,_,away,shape⟩ := (Cycle.undreamt_report applied).1 f member undreamt
  have same : f.id = g.id := (congrArg Fact.id shape).trans rfl
  rw [same]
  refine ⟨fun processed => away ?_,⟨g,held,rfl⟩⟩
  exact List.mem_append_left _ (List.mem_append_left _ processed)

end round

/-- In a store that was reached by adding facts, recording outcomes and applying reports, a
    run of the shipped cycle plans for the facts that it processes, its report is
    applied, and another run after that selects facts of before that were not processed. -/
theorem default_cycle_applies {ctx : MemoryCtx} {libraries : CycleLibraries} {cosine_similarity : Embedding → Embedding → F32}
    {cycle : DefaultDreamCycle} {ran_at now : DateTime} {s t : Engine} {report : CycleReport}
    (reads : ∀ history, ∃ back, libraries.history.from_str (libraries.history.to_string history) = .ok back)
    (reached : Reached libraries.history s.storage)
    (ran : Commits (run_dream_cycle ctx libraries (cycle.toDreamCycle ctx cosine_similarity ran_at) now) s report t) :
    t = s ∧ (∃ facts, (∀ f ∈ facts, f ∈ s.storage.facts.rows) ∧ report.metadata.processed_ids = facts.map Fact.id ∧
      DefaultDreamCycle.Planned cosine_similarity facts report) ∧
        ∀ now', ∃ result u, Commits (apply_cycle_report ctx libraries.history report now') s result u ∧
          ∀ (ran_at' now'' : DateTime) (report' : CycleReport) (u' : Engine),
            Commits (run_dream_cycle ctx libraries (cycle.toDreamCycle ctx cosine_similarity ran_at') now'') u report' u' →
              ∀ id ∈ report'.metadata.processed_ids, id ∉ report.metadata.processed_ids ∧ s.storage.facts.Has id := by
  obtain ⟨rooted,stamped,legible⟩ := reached.ready reads
  obtain ⟨rfl,isOpen,writable,facts,window,outcome_counts,selected,readable,processed,proposed⟩ := commits_round ran
  have found : ∀ f ∈ facts, f ∈ t.storage.facts.rows ∧ f.Undreamt := by
    intro f listed
    rw [selected] at listed
    obtain ⟨member,undreamt,_⟩ := CycleWindow.mem_undreamtRows.mp listed
    exact ⟨member,undreamt⟩
  have distinct : (facts.map Fact.id).Nodup := by
    rw [selected]
    exact undreamtRows_nodup window.start window.end t.storage
  have planned : DefaultDreamCycle.Planned cosine_similarity facts report := DefaultDreamCycle.planned distinct cycle.config ran_at proposed
  refine ⟨rfl,⟨facts,fun f listed => (found f listed).1,processed,planned⟩,fun now' => ?_⟩
  have live : ∀ f ∈ facts, Cycle.Live ctx.backend t.storage f.id := by
    intro f listed
    obtain ⟨member,undreamt⟩ := found f listed
    exact ⟨f,member,rfl,readable f listed,undreamt.1⟩
  have treats : ∀ delta ∈ report.deltas, ∃ id, delta.Treats id ∧ Cycle.Live ctx.backend t.storage id := by
    intro delta listed
    rw [proposed] at listed
    obtain ⟨f,held,here⟩ := treats_of_mem (fun _ chosen => DefaultDreamCycle.promotions_selected chosen) listed
    exact ⟨f.id,here,live f held⟩
  have held : ∀ id ∈ report.metadata.processed_ids, ∃ f ∈ t.storage.facts.rows, f.id = id ∧ f.Readable ctx.backend.embed_dim := by
    rw [processed]
    refine List.forall_mem_map.mpr fun f listed => ?_
    exact ⟨f,(found f listed).1,rfl,readable f listed⟩
  obtain ⟨pass,db,applied⟩ := Cycle.treats_commit now' treats planned.once held rooted.root stamped legible
  obtain ⟨u,called⟩ := apply_commits isOpen writable applied
  refine ⟨pass.result,u,called,fun ran_at' now'' report' u' again => ?_⟩
  obtain ⟨pass',applied',_⟩ := commits_apply_cycle_report called
  obtain ⟨_,_,_,later,window',_,selected',_,processed',_⟩ := commits_round again
  rw [processed']
  refine List.forall_mem_map.mpr fun f listed => ?_
  rw [selected'] at listed
  exact selected_afterwards applied' listed

end CycleRounds

namespace Sample

/-- The shipped cycle where all embeddings are alike. -/
def shipped : DreamCycle := (DefaultDreamCycle.mk {}).toDreamCycle ctx (fun _ _ => 0x3F800000) moment

/-- Three facts, and a cycle that reflects on them. -/
def reflect : Op CycleReport := do
  let _ ← add_fact ctx ⟨"a",.Semantic,none,none,none⟩ embedder none moment
  let _ ← add_fact ctx ⟨"b",.Semantic,none,none,none⟩ embedder none moment
  let _ ← add_fact ctx ⟨"c",.Semantic,none,none,none⟩ embedder none moment
  run_dream_cycle ctx cycleLibraries shipped moment

theorem sampleCodec_reads (history : List CycleMetadata) :
    ∃ back, Cycle.sampleCodec.from_str (Cycle.sampleCodec.to_string history) = .ok back := ⟨_,rfl⟩

end Sample

theorem CycleRounds.default_cycle_applies_sample : ∃ (s t u : Engine) (report : CycleReport) (result : ApplyResult),
    Commits (run_dream_cycle Sample.ctx Sample.cycleLibraries Sample.shipped Sample.moment) s report t ∧ report.deltas.length = 1 ∧
      Commits (apply_cycle_report Sample.ctx Cycle.sampleCodec report Sample.moment) s result u := by
  have ends : Ends Sample.reflect Sample.blank (fun report _ => decide (report.deltas.length = 1)) = true := by decide +kernel
  obtain ⟨report,t,reflected,one⟩ := commits_of_ends ends
  obtain ⟨_,s₁,first,rest⟩ := commits_bind.mp reflected
  obtain ⟨_,s₂,second,rest⟩ := commits_bind.mp rest
  obtain ⟨_,s₃,third,ran⟩ := commits_bind.mp rest
  have start : Reached Cycle.sampleCodec Sample.blank.storage := .fresh
  have reached : Reached Cycle.sampleCodec s₃.storage := .add_fact (.add_fact (.add_fact start first) second) third
  obtain ⟨_,_,accepted⟩ := default_cycle_applies Sample.sampleCodec_reads reached ran
  obtain ⟨result,u,applied,_⟩ := accepted Sample.moment
  exact ⟨s₃,t,u,report,result,ran,of_decide_eq_true one,applied⟩

end MemoryEngine
