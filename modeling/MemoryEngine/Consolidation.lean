import MemoryEngine.LlmDreamCycle
import MemoryEngine.ScoreRange

/-! What becomes of a report that merges facts of its window, and when every proposal leads
to one that is applied. -/

namespace MemoryEngine
open Time KeyedTable Transaction

/-- The row went on to another that differs in its expiry and its metadata at most. -/
def Fact.Continues (f f' : Fact) : Prop := f' = { f with t_expired := f'.t_expired, metadata := f'.metadata }

theorem Fact.Continues.refl (f : Fact) : f.Continues f := rfl

theorem Fact.Continues.trans {f f' f'' : Fact} (first : f.Continues f') (second : f'.Continues f'') : f.Continues f'' := by
  rw [Continues] at first second ⊢
  rw [second,first]

/-- The fact stands for these facts of the window: it has their scope, and the importance of
    the most important of them. -/
def NewFact.StandsFor (facts : List Fact) (sources : List FactId) (nf : NewFact) : Prop :=
  (∀ id ∈ sources, ∃ f ∈ facts, f.id = id ∧ f.scope_id = nf.scope_id) ∧
    ∃ importance, nf.base_importance = .num importance ∧ IsGreatest {x | ∃ f ∈ facts, f.id ∈ sources ∧ f.base_importance = x} importance

/-- The report merges facts of its window, each of them once at most. -/
structure CycleReport.Consolidates (facts : List Fact) (report : CycleReport) : Prop where
  once : (report.deltas.flatMap CycleDelta.gone).Nodup
  merges : ∀ delta ∈ report.deltas, ∃ sources nf, delta = .Synthesize sources nf ∧ nf.StandsFor facts sources
  processed : report.metadata.processed_ids = facts.map Fact.id

/-- What an applied report did to the store. -/
structure CycleReport.Consolidated (facts : List Fact) (report : CycleReport) (s t : Db) : Prop where
  outside : ∀ f ∈ s.facts.rows, f.id ∉ facts.map Fact.id → f ∈ t.facts.rows
  made : ∀ f ∈ t.facts.rows, ¬ s.facts.Has f.id → ∃ sources nf, .Synthesize sources nf ∈ report.deltas ∧
    f.scope_id = nf.scope_id ∧ nf.base_importance = .num f.base_importance
  marked : ∀ f ∈ facts, ∃ f' ∈ t.facts.rows, f'.id = f.id ∧ f'.metadata.hasKey "dream_cycle" = true
  next : ∀ start stop, ∀ f ∈ FactStore.undreamtRows start stop [] none t.toTables, f.id ∉ facts.map Fact.id ∧ s.facts.Has f.id

namespace Cycle
variable {self : SqliteBackend} {now : DateTime}

/-- What merging does to the rows: those that are no sources stay, the others continue, and
    every other row is one that a merge made. -/
structure MergedRows (deltas : List CycleDelta) (s t : Db) : Prop where
  kept : ∀ f ∈ s.facts.rows, f.id ∉ deltas.flatMap CycleDelta.gone → f ∈ t.facts.rows
  made : ∀ f ∈ t.facts.rows, (∃ g ∈ s.facts.rows, g.Continues f) ∨
    ∃ sources nf, .Synthesize sources nf ∈ deltas ∧ f.scope_id = nf.scope_id ∧ nf.base_importance = .num f.base_importance

/-- Expiring the sources. -/
theorem rows_sources {synth_id scope_id : Int} {sources : List FactId} {acc acc' : ApplyPass × Option (DateTime × DateTime)} {s t : Db}
    (committed : Commits (sources.foldlM (synthesizeSource self now synth_id scope_id) acc) s acc' t) :
    (∀ f ∈ s.facts.rows, f.id ∉ sources → f ∈ t.facts.rows) ∧ ∀ f ∈ t.facts.rows, ∃ g ∈ s.facts.rows, g.Continues f := by
  induction sources generalizing acc s with
  | nil =>
    obtain ⟨_,rfl⟩ := commits_pure.mp committed
    exact ⟨fun f member _ => member,fun f member => ⟨f,member,.refl f⟩⟩
  | cons src rest ih =>
    rw [List.foldlM_cons] at committed
    obtain ⟨_,m,first,later⟩ := commits_bind.mp committed
    obtain ⟨_,_,got,superseding⟩ := commits_bind.mp first
    obtain ⟨_,_,rfl⟩ := FactStore.commits_get.mp got
    obtain ⟨_,_,superseded,last⟩ := commits_bind.mp superseding
    obtain ⟨_,rfl⟩ := commits_pure.mp last
    obtain ⟨_,n,expired,linking⟩ := commits_bind.mp superseded
    obtain ⟨_,_,linked,closed⟩ := commits_bind.mp linking
    obtain ⟨_,rfl⟩ := commits_pure.mp closed
    obtain ⟨_,ended⟩ := FactStore.commits_updateActive.mp expired
    obtain ⟨_,_,_,written⟩ := EdgeStore.commits_insert.mp linked
    have facts : m.facts = n.facts := by rw [written]
    obtain ⟨kept,continued⟩ := ih later
    rw [facts] at kept continued
    constructor
    · intro f member away
      obtain ⟨apart,others⟩ := not_or.mp (mt List.mem_cons.mpr away)
      refine kept f ?_ others
      rw [ended,Table.mem_update]
      exact ⟨f,member,by rw [if_neg (by simp [apart])]⟩
    · intro f member
      obtain ⟨g,held,goes⟩ := continued f member
      rw [ended,Table.mem_update] at held
      obtain ⟨h,there,rfl⟩ := held
      refine ⟨h,there,Fact.Continues.trans ?_ goes⟩
      split <;> rfl

theorem mergedRows_delta {pass pass' : ApplyPass} {sources : List FactId} {nf : NewFact} {s t : Db}
    (committed : Commits (applyDelta self now pass (.Synthesize sources nf)) s pass' t) : MergedRows [.Synthesize sources nf] s t := by
  obtain ⟨synth_id,m,inserted,rest⟩ := commits_bind.mp committed
  obtain ⟨_,m',looped,rest⟩ := commits_bind.mp rest
  obtain ⟨_,_,recorded,last⟩ := commits_bind.mp rest
  obtain ⟨_,rfl⟩ := commits_pure.mp last
  obtain ⟨_,importance,given,_,written⟩ := FactStore.commits_insert.mp inserted
  obtain ⟨_,_,_,noted⟩ := LineageStore.commits_insert.mp recorded
  obtain ⟨kept,continued⟩ := rows_sources looped
  have facts : t.facts = m'.facts := by rw [noted]
  constructor
  · rw [facts]
    intro f member away
    rw [List.flatMap_singleton] at away
    refine kept f ?_ away
    rw [written,Table.mem_insert]
    exact .inl member
  · rw [facts]
    intro f member
    obtain ⟨g,held,goes⟩ := continued f member
    rw [written,Table.mem_insert] at held
    rcases held with old | rfl
    · exact .inl ⟨g,old,goes⟩
    · rw [Fact.Continues] at goes
      have scope := congrArg Fact.scope_id goes
      have value := congrArg Fact.base_importance goes
      exact .inr ⟨sources,nf,List.mem_singleton_self _,scope,given.trans (congrArg F64.num value.symm)⟩

theorem mergedRows_deltas {deltas : List CycleDelta} (merges : ∀ delta ∈ deltas, ∃ sources nf, delta = .Synthesize sources nf)
    {pass pass' : ApplyPass} {s t : Db} (committed : Commits (deltas.foldlM (applyDelta self now) pass) s pass' t) : MergedRows deltas s t := by
  induction deltas generalizing pass s with
  | nil =>
    obtain ⟨_,rfl⟩ := commits_pure.mp committed
    exact ⟨fun f member _ => member,fun f member => .inl ⟨f,member,.refl f⟩⟩
  | cons delta rest ih =>
    obtain ⟨⟨sources,nf,rfl⟩,others⟩ := List.forall_mem_cons.mp merges
    rw [List.foldlM_cons] at committed
    obtain ⟨_,m,first,later⟩ := commits_bind.mp committed
    have here := mergedRows_delta first
    have after := ih others later
    constructor
    · intro f member away
      rw [List.flatMap_cons,List.mem_append,not_or] at away
      refine after.kept f (here.kept f member ?_) away.2
      rw [List.flatMap_singleton]
      exact away.1
    · intro f member
      rcases after.made f member with ⟨g,held,goes⟩ | ⟨sources',nf',listed,shape⟩
      · rcases here.made g held with ⟨h,there,went⟩ | ⟨sources',nf',listed,scope,value⟩
        · exact .inl ⟨h,there,went.trans goes⟩
        · rw [Fact.Continues] at goes
          have scope' := congrArg Fact.scope_id goes
          have value' := congrArg Fact.base_importance goes
          refine .inr ⟨sources',nf',?_,scope'.trans scope,value.trans (congrArg F64.num value'.symm)⟩
          exact List.mem_cons.mpr (.inl (List.mem_singleton.mp listed))
      · exact .inr ⟨sources',nf',List.mem_cons_of_mem _ listed,shape⟩

/-- The checks of the deltas pass one after the other. -/
theorem validated_of_passes {s : Db} {deltas : List CycleDelta} {expired : List FactId} (passes : PassesAll self s expired deltas) :
    ∃ expired', Commits (deltas.foldlM (validateDelta self) expired) s expired' s := by
  induction deltas generalizing expired with
  | nil => exact ⟨expired,commits_pure.mpr ⟨rfl,rfl⟩⟩
  | cons delta rest ih =>
    obtain ⟨middle,checked⟩ := passes_iff.mpr passes.1
    have grown := (valid_delta checked).2.2
    obtain ⟨expired',later⟩ := ih ((PassesAll.congr fun id => (grown id).trans List.mem_append.symm).mpr passes.2)
    refine ⟨expired',?_⟩
    rw [List.foldlM_cons]
    exact commits_bind.mpr ⟨middle,s,checked,later⟩

/-- Merges of live facts, each of them once, pass. -/
theorem passesAll_merges {s : Db} {deltas : List CycleDelta} {expired : List FactId}
    (merges : ∀ delta ∈ deltas, ∃ sources nf, delta = .Synthesize sources nf ∧ nf.Checked self ∧ sources ≠ [] ∧ ∀ src ∈ sources, Live self s src)
    (once : (deltas.flatMap CycleDelta.gone).Nodup) (fresh : ∀ id ∈ deltas.flatMap CycleDelta.gone, id ∉ expired) :
    PassesAll self s expired deltas := by
  induction deltas generalizing expired with
  | nil => trivial
  | cons delta rest ih =>
    obtain ⟨⟨sources,nf,rfl,checked,some_,lives⟩,others⟩ := List.forall_mem_cons.mp merges
    rw [List.flatMap_cons] at once fresh
    obtain ⟨own,later,apart⟩ := List.nodup_append.mp once
    refine ⟨⟨checked,some_,own,fun src listed => ⟨lives src listed,fresh src (List.mem_append_left _ listed)⟩⟩,ih others later ?_⟩
    intro id listed
    rw [List.mem_append]
    rintro (early | here)
    · exact fresh id (List.mem_append_right _ listed) early
    · exact apart id here id listed rfl

/-- An applied report that merges facts of its window did what it should to the store. -/
theorem consolidated {ctx : MemoryCtx} {codec : HistoryCodec} {report : CycleReport} {facts : List Fact} {s t : Db} {pass : ApplyPass}
    (committed : Commits (apply_cycle_deltas_atomic ctx.backend codec report now) s pass t) (plan : report.Consolidates facts) :
    report.Consolidated facts s t := by
  obtain ⟨m,m',m'',validated,_,applied,marked,dated,appended⟩ := commits_report.mp committed
  obtain ⟨⟨expired,checked⟩,mergeable⟩ := valid_report validated
  obtain ⟨_,_,_,_,behind,_⟩ := behind_deltas (Behind.start s) checked applied
  have rows : MergedRows report.deltas s m := mergedRows_deltas (fun delta listed => by
    obtain ⟨sources,nf,shape,_⟩ := plan.merges delta listed
    exact ⟨sources,nf,shape⟩) applied
  have stored : t.facts = m'.facts := by
    rw [leaves_append_cycle_history _ _ m'' () t appended,commits_execute.mp dated]
  have window : ∀ id ∈ report.deltas.flatMap CycleDelta.gone, id ∈ facts.map Fact.id := by
    intro id listed
    obtain ⟨delta,there,gone⟩ := List.mem_flatMap.mp listed
    obtain ⟨sources,nf,rfl,stands⟩ := plan.merges delta there
    obtain ⟨f,held,same,_⟩ := stands.1 id gone
    exact List.mem_map.mpr ⟨f,held,same⟩
  have none_ : report.deltas.flatMap CycleDelta.successors = [] := by
    refine List.flatMap_eq_nil_iff.mpr fun delta there => ?_
    obtain ⟨sources,nf,rfl,_⟩ := plan.merges delta there
    rfl
  refine ⟨fun f member away => ?_,fun f there new => ?_,fun f listed => ?_,fun start stop f selected => ?_⟩
  · rw [stored]
    refine mark_spares marked (not_mem_toMark validated applied member ?_ ?_) (rows.kept f member fun gone => away (window _ gone))
    · rwa [plan.processed]
    · rw [none_]
      exact List.not_mem_nil
  · rw [stored] at there
    obtain ⟨g,held,same⟩ := (sameButMarks_mark marked).row_back there
    have identity := congrArg Fact.id same
    have scope := congrArg Fact.scope_id same
    have value := congrArg Fact.base_importance same
    rcases rows.made g held with ⟨h,old,goes⟩ | ⟨sources,nf,listed,scope',value'⟩
    · rw [Fact.Continues] at goes
      exact absurd ⟨h,old,(congrArg Fact.id goes).symm.trans identity.symm⟩ new
    · exact ⟨sources,nf,listed,scope.trans scope',value'.trans (congrArg F64.num value.symm)⟩
  · have processed : f.id ∈ report.metadata.processed_ids := by
      rw [plan.processed]
      exact List.mem_map_of_mem listed
    obtain ⟨h,old,same,_⟩ := mergeable f.id processed
    obtain ⟨f',there,here⟩ := has_mark (has_after ⟨h,old,same⟩ behind.evolved) marked
    obtain ⟨g,_,marks⟩ := marked_rows marked f' there
    refine ⟨f',by rwa [stored],here,marks.set (mem_toMark.mpr (.inl ?_))⟩
    rw [← marks.id,show f'.id = f.id from here]
    exact processed
  · rw [← plan.processed]
    have within : f ∈ FactStore.undreamtRows (TimeWindow.mk start stop).start (TimeWindow.mk start stop).end [] none t.toTables := selected
    exact CycleRounds.selected_afterwards committed within

end Cycle

/-- The summaries that are proposed are within the cap. -/
def DeltaProposer.Capped (proposer : DeltaProposer) : Prop := ∀ facts prior_wisdom proposal, proposer.propose facts prior_wisdom = .ok proposal →
  ∀ group ∈ proposal.merges, group.summary.utf8ByteSize ≤ MAX_PAYLOAD_BYTES

/-- The embedder makes vectors of this length, and it does make some. -/
structure EmbeddingProvider.Serves (embedder : EmbeddingProvider) (dim : Nat) : Prop where
  sized : ∀ text v, embedder.embed text = .ok v → v.length = dim
  answers : ∃ text v, text.utf8ByteSize ≤ MAX_PAYLOAD_BYTES ∧ embedder.embed text = .ok v

/-- The report merges facts of its window, and applying it succeeds and does that to the store. -/
def CycleReport.Settles (ctx : MemoryCtx) (codec : HistoryCodec) (facts : List Fact) (report : CycleReport) (s : Engine) : Prop :=
  report.Consolidates facts ∧ ∀ now, ∃ result t, Commits (apply_cycle_report ctx codec report now) s result t ∧
    report.Consolidated facts s.storage t.storage

namespace LlmDreamCycle
variable {ctx : MemoryCtx} {libraries : CycleLibraries} {s t : Engine} {facts : List Fact} {embedder : EmbeddingProvider}

/-- A run selects the facts of its window and merges what is proposed. -/
theorem commits_run {cycle : LlmDreamCycle} {ran_at : DateTime} {c : CycleContext} {report : CycleReport} :
    Commits (cycle.run ctx ran_at c) s report t ↔ t = s ∧ ∃ facts proposal made,
      Commits (FactStore.list_undreamt_in_period ctx.backend c.time_window.start c.time_window.end [] none) s.storage facts s.storage ∧
        cycle.proposer.propose facts c.prior_wisdom = .ok proposal ∧ deltas facts cycle.embedder ran_at proposal.merges = .ok made ∧
          report = ⟨made,⟨[],[],[]⟩,⟨DefaultDreamCycle.cycle_id c.prior_reports,ran_at,c.time_window,facts.length,METHOD_VERSION,facts.map Fact.id⟩⟩ := by
  constructor
  · intro committed
    obtain ⟨facts,_,ported,rest⟩ := commits_bind.mp committed
    obtain ⟨db,listed,rfl⟩ := commits_port.mp ported
    obtain ⟨_,_,same⟩ := commits_readRows.mp listed
    obtain ⟨proposal,_,proposed,rest⟩ := commits_bind.mp rest
    obtain ⟨proposes,rfl⟩ := commits_lift.mp proposed
    obtain ⟨made,_,merging,last⟩ := commits_bind.mp rest
    obtain ⟨merges,rfl⟩ := commits_lift.mp merging
    obtain ⟨rfl,rfl⟩ := commits_pure.mp last
    rw [same] at listed
    exact ⟨by rw [same],facts,proposal,made,listed,proposes,merges,rfl⟩
  · rintro ⟨rfl,facts,proposal,made,listed,proposes,merges,rfl⟩
    refine commits_bind.mpr ⟨facts,t,commits_port.mpr ⟨t.storage,listed,rfl⟩,?_⟩
    refine commits_bind.mpr ⟨proposal,t,commits_lift.mpr ⟨proposes,rfl⟩,?_⟩
    exact commits_bind.mpr ⟨made,t,commits_lift.mpr ⟨merges,rfl⟩,commits_pure.mpr ⟨rfl,rfl⟩⟩

/-- A run reads the store and plans. -/
theorem commits_cycle {cycle : LlmDreamCycle} {ran_at now : DateTime} {report : CycleReport}
    (ran : Commits (run_dream_cycle ctx libraries (cycle.toDreamCycle ctx ran_at) now) s report t) :
    t = s ∧ ∃ c, Commits (build_cycle_context ctx libraries now) s c s ∧ Commits (cycle.run ctx ran_at c) s report s := by
  obtain ⟨_,_,opened,gating⟩ := commits_bind.mp ran
  obtain ⟨_,rfl⟩ := commits_lift.mp opened
  obtain ⟨_,_,gated,building⟩ := commits_bind.mp gating
  obtain ⟨_,rfl⟩ := commits_lift.mp gated
  obtain ⟨c,_,built,running⟩ := commits_bind.mp building
  obtain ⟨rfl,_⟩ := CycleWindow.commits_build_cycle_context built
  obtain ⟨rfl,_⟩ := commits_run.mp running
  exact ⟨rfl,c,built,running⟩

/-- What was read of the history can be read again. -/
theorem historyReads_build {now : DateTime} {c : CycleContext} (built : Commits (build_cycle_context ctx libraries now) s c t) :
    Cycle.HistoryReads libraries.history s.storage.toTables := by
  obtain ⟨_,_,_,decodes⟩ := CycleWindow.commits_build_cycle_context built
  intro text held
  rw [Option.mem_def.mp held] at decodes
  exact ⟨c.prior_reports,decodes⟩

/-- The merge passes its checks, and the fact it brings along can be stored. -/
def Storing (backend : SqliteBackend) (db : Db) (delta : CycleDelta) : Prop :=
  ∃ sources nf, delta = .Synthesize sources nf ∧ nf.Checked backend ∧ sources ≠ [] ∧ (∀ src ∈ sources, Cycle.Live backend db src) ∧
    db.scopes.Has nf.scope_id ∧ nf.source_event_id = none ∧ nf.t_expired = none ∧ nf.metadata = .obj []

theorem storableAll_storing {backend : SqliteBackend} {db : Db} {deltas : List CycleDelta} (storing : ∀ delta ∈ deltas, Storing backend db delta)
    (tags : Nat) : StorableAll db.toTables tags deltas := by
  induction deltas generalizing tags with
  | nil => trivial
  | cons delta rest ih =>
    obtain ⟨⟨sources,nf,rfl,_,_,_,scope,event,open_,_⟩,others⟩ := List.forall_mem_cons.mp storing
    exact ⟨⟨⟨scope,by rw [event]; simp⟩,open_⟩,ih others _⟩

section window
variable {c : CycleContext} (selected : Commits (FactStore.list_undreamt_in_period ctx.backend c.time_window.start c.time_window.end [] none)
  s.storage facts s.storage)
include selected

/-- The facts of the window are rows of the store that read back and are active. -/
theorem window_live {f : Fact} (listed : f ∈ facts) : f ∈ s.storage.facts.rows ∧ f.Readable ctx.backend.embed_dim ∧ f.t_expired = none := by
  obtain ⟨shape,readable,_⟩ := commits_readRows.mp selected
  rw [shape] at listed
  obtain ⟨member,undreamt,_⟩ := CycleWindow.mem_undreamtRows.mp listed
  exact ⟨member,readable f listed,undreamt.1⟩

theorem window_nodup : (facts.map Fact.id).Nodup := by
  rw [(commits_readRows.mp selected).1]
  exact CycleRounds.undreamtRows_nodup _ _ s.storage

/-- The only fact of the window with its id. -/
theorem window_unique {f g : Fact} (listed : f ∈ facts) (listed' : g ∈ facts) (same : f.id = g.id) : f = g :=
  List.inj_on_of_nodup_map (window_nodup selected) listed listed' same

/-- A merge of facts that are not below zero stands for them. -/
theorem merges_standsFor {summary : String} {now : DateTime} {delta : CycleDelta} (merges : Merges facts embedder now summary delta)
    (least : ∀ f ∈ facts, ((0 : ℚ) : WithTop ℚ) ≤ f.base_importance) : ∃ sources nf, delta = .Synthesize sources nf ∧ nf.StandsFor facts sources := by
  obtain ⟨sources,embedding,scope_id,some_,held,_,rfl⟩ := merges
  refine ⟨_,_,rfl,?_,importance sources,rfl,?_⟩
  · intro id listed
    obtain ⟨f,there,rfl⟩ := List.mem_map.mp listed
    exact ⟨f,(held f there).1,rfl,(held f there).2⟩
  · have greatest := importance_isGreatest some_ fun f there => least f (held f there).1
    have same : {x | ∃ f ∈ facts, f.id ∈ sources.map Fact.id ∧ f.base_importance = x} = {x | ∃ f ∈ sources, f.base_importance = x} := by
      ext x
      constructor
      · rintro ⟨f,listed,named,value⟩
        obtain ⟨g,there,same⟩ := List.mem_map.mp named
        obtain rfl := window_unique selected (held g there).1 listed same
        exact ⟨g,there,value⟩
      · rintro ⟨f,there,value⟩
        exact ⟨f,(held f there).1,List.mem_map_of_mem there,value⟩
    rw [same]
    exact greatest

/-- A merge of facts in range passes its checks and can be stored. -/
theorem merges_storing (serves : embedder.Serves ctx.backend.embed_dim) (unit : ∀ f ∈ facts, (F64.num f.base_importance).InUnit) {summary : String}
    (short : summary.utf8ByteSize ≤ MAX_PAYLOAD_BYTES) {now : DateTime} {delta : CycleDelta} (merges : Merges facts embedder now summary delta) :
    Storing ctx.backend s.storage delta := by
  obtain ⟨sources,embedding,scope_id,some_,held,embedded,rfl⟩ := merges
  have bounded : (F64.num (importance sources)).InUnit := by
    obtain ⟨f,member,same⟩ := (importance_isGreatest some_ fun f there => (F64.inUnit_num.mp (unit f (held f there).1)).1).1
    rw [← same]
    exact unit f (held f member).1
  refine ⟨_,_,rfl,⟨serves.sized _ _ embedded,⟨bounded.is_finite,bounded⟩,short,?_⟩,?_,?_,?_,rfl,rfl,rfl⟩
  · exact Nat.le_of_ble_eq_true rfl
  · exact fun none_ => some_ (List.map_eq_nil_iff.mp none_)
  · intro src named
    obtain ⟨f,member,rfl⟩ := List.mem_map.mp named
    obtain ⟨row,readable,open_⟩ := window_live selected (held f member).1
    exact ⟨f,row,rfl,readable,open_⟩
  · obtain ⟨f,member⟩ := List.exists_mem_of_ne_nil sources some_
    obtain ⟨row,_,_⟩ := window_live selected (held f member).1
    have scope := s.storage.foreign.fact_scope f row
    rwa [(held f member).2] at scope

/-- What is proposed is validated and applied where the importance of every fact of the window
    is in the unit interval. -/
theorem settles (isOpen : ctx.ensure_open = .ok ()) (writable : ctx.ensure_writable = .ok ()) (identity : s.storage.activeSpace ≠ none)
    (serves : embedder.Serves ctx.backend.embed_dim) {now : DateTime} (built : Commits (build_cycle_context ctx libraries now) s c s)
    (unit : ∀ f ∈ facts, (F64.num f.base_importance).InUnit) {proposer : DeltaProposer} (capped : proposer.Capped) {ran_at : DateTime} {report : CycleReport}
    (ran : Commits (LlmDreamCycle.run ctx ⟨proposer,embedder⟩ ran_at c) s report s) : report.Settles ctx libraries.history facts s := by
  obtain ⟨_,facts',proposal,made,selected',proposes,merging,rfl⟩ := commits_run.mp ran
  obtain rfl : facts' = facts := (commits_readRows.mp selected').1.trans (commits_readRows.mp selected).1.symm
  obtain ⟨once,each⟩ := deltas_spec merging
  have plan : CycleReport.Consolidates facts' ⟨made,⟨[],[],[]⟩,
      ⟨DefaultDreamCycle.cycle_id c.prior_reports,ran_at,c.time_window,facts'.length,METHOD_VERSION,facts'.map Fact.id⟩⟩ := by
    refine ⟨once,fun delta listed => ?_,rfl⟩
    obtain ⟨group,_,merges⟩ := each delta listed
    exact merges_standsFor selected merges fun f held => (F64.inUnit_num.mp (unit f held)).1
  have checks : ∀ delta ∈ made, Storing ctx.backend s.storage delta := by
    intro delta listed
    obtain ⟨group,there,merges⟩ := each delta listed
    exact merges_storing selected serves unit (capped _ _ _ proposes group there) merges
  refine ⟨plan,fun now' => ?_⟩
  have passes : Cycle.PassesAll ctx.backend s.storage [] made := by
    refine Cycle.passesAll_merges (fun delta listed => ?_) once fun _ _ => List.not_mem_nil
    obtain ⟨sources,nf,shape,checked,some_,lives,_⟩ := checks delta listed
    exact ⟨sources,nf,shape,checked,some_,lives⟩
  obtain ⟨expired,checked⟩ := Cycle.validated_of_passes passes
  have processed : ∀ id ∈ facts'.map Fact.id, ∃ f ∈ s.storage.facts.rows, f.id = id ∧ f.Readable ctx.backend.embed_dim := by
    refine List.forall_mem_map.mpr fun f listed => ?_
    obtain ⟨row,readable,_⟩ := window_live selected listed
    exact ⟨f,row,rfl,readable⟩
  have validated : Commits (Cycle.validate_report ctx.backend ⟨made,⟨[],[],[]⟩,
      ⟨DefaultDreamCycle.cycle_id c.prior_reports,ran_at,c.time_window,facts'.length,METHOD_VERSION,facts'.map Fact.id⟩⟩) s.storage () s.storage :=
    commits_bind.mpr ⟨expired,s.storage,checked,Cycle.validated_processed processed⟩
  have parse : ∀ delta ∈ made, ∀ nf ∈ delta.newFact, nf.metadata.Parses := by
    intro delta listed nf brought
    obtain ⟨sources,nf',rfl,_,_,_,_,_,_,empty⟩ := checks delta listed
    obtain rfl := Option.some.inj brought
    rw [empty]
    simp [Json.Parses,Json.depth,Json.fieldDepth,Json.RECURSION_LIMIT]
  obtain ⟨pass,db,applied⟩ := (apply_cycle_deltas_atomic_commits_iff validated identity).mpr ⟨storableAll_storing checks 0,parse,historyReads_build built⟩
  obtain ⟨u,called⟩ := CycleRounds.apply_commits isOpen writable applied
  obtain ⟨pass',applied',_⟩ := commits_apply_cycle_report called
  exact ⟨pass.result,u,called,Cycle.consolidated applied' plan⟩

/-- A fact of the window is found by its id. -/
theorem by_id_self {f : Fact} (listed : f ∈ facts) : by_id facts f.id = some f := by
  cases found : by_id facts f.id with
  | none => exact absurd (List.find?_eq_none.mp found f listed) (by simp)
  | some g =>
    obtain ⟨held,same⟩ := by_id_eq_some found
    rw [window_unique selected held listed same]

/-- A proposal to merge one fact of the window merges it. -/
theorem deltas_alone {f : Fact} (listed : f ∈ facts) {summary : String} {embedding : Embedding} (embedded : embedder.embed summary = .ok embedding)
    (now : DateTime) : deltas facts embedder now [⟨[f.id],summary⟩] = .ok [.Synthesize [f.id] (merged summary embedding now [f] f.scope_id)] := by
  have clamped : clamp facts [] [] [f.id] = [f] := by
    rw [clamp,by_id_self selected listed]
    rfl
  have own : ¬ ∃ g ∈ [f], g.scope_id ≠ f.scope_id := by simp
  have one : mergeGroup facts embedder now ([],[]) ⟨[f.id],summary⟩ =
      .ok ([f.id],[.Synthesize [f.id] (merged summary embedding now [f] f.scope_id)]) := by
    rw [mergeGroup,clamped]
    dsimp only
    rw [if_neg own,embedded]
    rfl
  rw [deltas,List.foldlM_cons,one]
  rfl

/-- Where each fact can be merged alone, the importance of each is in the unit interval. -/
theorem unit_of_settles (serves : embedder.Serves ctx.backend.embed_dim) (codec : HistoryCodec) (ran_at : DateTime)
    (settled : ∀ proposer : DeltaProposer, proposer.Capped → ∀ report, Commits (LlmDreamCycle.run ctx ⟨proposer,embedder⟩ ran_at c) s report s →
      report.Settles ctx codec facts s) : ∀ f ∈ facts, (F64.num f.base_importance).InUnit := by
  intro f listed
  obtain ⟨summary,embedding,short,embedded⟩ := serves.answers
  let alone : DeltaProposer := ⟨fun _ _ => .ok ⟨[⟨[f.id],summary⟩]⟩⟩
  have capped : alone.Capped := by
    intro _ _ proposal proposes group there
    obtain rfl := Except.ok.inj proposes
    obtain rfl := List.mem_singleton.mp there
    exact short
  have ran : Commits (LlmDreamCycle.run ctx ⟨alone,embedder⟩ ran_at c) s ⟨[.Synthesize [f.id] (merged summary embedding ran_at [f] f.scope_id)],
      ⟨[],[],[]⟩,⟨DefaultDreamCycle.cycle_id c.prior_reports,ran_at,c.time_window,facts.length,METHOD_VERSION,facts.map Fact.id⟩⟩ s :=
    commits_run.mpr ⟨rfl,facts,_,_,selected,rfl,deltas_alone selected listed embedded ran_at,rfl⟩
  obtain ⟨plan,accepted⟩ := settled alone capped _ ran
  obtain ⟨result,u,called,_⟩ := accepted ran_at
  obtain ⟨pass,applied,_⟩ := commits_apply_cycle_report called
  have checked := Cycle.checked_of_report applied _ List.mem_cons_self _ rfl
  -- What is stored is the larger of zero and the importance of the fact.
  have bounds : (F64.num (max (((0 : ℚ) : WithTop ℚ) : SqlReal) f.base_importance)).InUnit := checked.bounded.2
  obtain ⟨sources,nf,shape,_,importance,given,greatest⟩ := plan.merges _ List.mem_cons_self
  obtain ⟨rfl,rfl⟩ := CycleDelta.Synthesize.inj shape
  obtain ⟨g,held,named,value⟩ := greatest.1
  obtain rfl := window_unique selected held listed (List.mem_singleton.mp named)
  have same : max (((0 : ℚ) : WithTop ℚ) : SqlReal) g.base_importance = importance := F64.num.inj given
  rw [value,← same]
  exact bounds

end window

end LlmDreamCycle

/-- Every proposal for a window leads to a report that is applied and merges as it should
    exactly when the importance of every fact of the window is in the unit interval. -/
theorem llm_cycle_settles_iff {ctx : MemoryCtx} {libraries : CycleLibraries} {embedder : EmbeddingProvider} {now : DateTime} {s : Engine}
    {c : CycleContext} {facts : List Fact} (isOpen : ctx.ensure_open = .ok ()) (writable : ctx.ensure_writable = .ok ())
    (identity : s.storage.activeSpace ≠ none) (serves : embedder.Serves ctx.backend.embed_dim)
    (built : Commits (build_cycle_context ctx libraries now) s c s)
    (selected : Commits (FactStore.list_undreamt_in_period ctx.backend c.time_window.start c.time_window.end [] none) s.storage facts s.storage) :
    (∀ proposer : DeltaProposer, proposer.Capped → ∀ ran_at report t,
      Commits (run_dream_cycle ctx libraries (LlmDreamCycle.toDreamCycle ctx ⟨proposer,embedder⟩ ran_at) now) s report t →
        t = s ∧ report.Settles ctx libraries.history facts s) ↔ ∀ f ∈ facts, (F64.num f.base_importance).InUnit := by
  constructor
  · intro settled
    refine LlmDreamCycle.unit_of_settles selected serves libraries.history now fun proposer capped report ran => ?_
    have gated : Commits (run_dream_cycle ctx libraries (LlmDreamCycle.toDreamCycle ctx ⟨proposer,embedder⟩ now) now) s report s :=
      commits_bind.mpr ⟨(),s,commits_lift.mpr ⟨isOpen,rfl⟩,commits_bind.mpr ⟨(),s,commits_lift.mpr ⟨writable,rfl⟩,commits_bind.mpr ⟨c,s,built,ran⟩⟩⟩
    exact (settled proposer capped now report s gated).2
  · intro unit proposer capped ran_at report t ran
    obtain ⟨rfl,c',built',running⟩ := LlmDreamCycle.commits_cycle ran
    obtain rfl : c' = c := (Prod.mk.inj (Except.ok.inj (built'.symm.trans built))).1
    exact ⟨rfl,LlmDreamCycle.settles selected isOpen writable identity serves built unit capped running⟩

namespace Consolidation.Sample
open MemoryEngine.Sample

/-- Two facts, and what a cycle selects of them. -/
def window : Op (CycleContext × List Fact) := do
  let _ ← add_fact ctx ⟨"a",.Semantic,none,none,none⟩ embedder none moment
  let _ ← add_fact ctx ⟨"b",.Semantic,none,none,none⟩ embedder none moment
  let c ← build_cycle_context ctx cycleLibraries moment
  let facts ← port (FactStore.list_undreamt_in_period ctx.backend c.time_window.start c.time_window.end [] none)
  return (c,facts)

/-- A fact that stands for the first one, of an importance that nobody checks. -/
def promotion : PromoteRequest where
  content := "b"
  fact_type := .Semantic
  embedding := [0x3F000000]
  importance := F64.ofRat 2
  metadata := .obj []
  scope := none
  source_fact_ids := [1]
  provenance := ⟨1,1,moment,moment,F64.ofRat 1,"p",[1]⟩

/-- A cycle that is told to merge the first two facts. -/
def merging : LlmDreamCycle := ⟨⟨fun _ _ => .ok ⟨[⟨[1,2],"c"⟩]⟩⟩,embedder⟩

theorem merging_capped : merging.proposer.Capped := by
  intro _ _ proposal proposes group there
  obtain rfl := Except.ok.inj proposes
  obtain rfl := List.mem_singleton.mp there
  decide

theorem serves : embedder.Serves 1 := ⟨fun _ _ made => by obtain rfl := Except.ok.inj made; rfl,"",_,by decide,rfl⟩

/-- What the cycle reports after the promotion. -/
def overrated : Op CycleReport := do
  let _ ← add_fact ctx ⟨"a",.Semantic,none,none,none⟩ embedder none moment
  let _ ← promote_with_lineage ctx promotion moment
  run_dream_cycle ctx cycleLibraries (merging.toDreamCycle ctx moment) moment

end Consolidation.Sample

open Consolidation.Sample in
theorem llm_cycle_settles_sample : ∃ (s : Engine) (facts : List Fact), facts.length = 2 ∧ ∀ proposer : DeltaProposer, proposer.Capped →
    ∀ ran_at report t, Commits (run_dream_cycle Sample.ctx Sample.cycleLibraries (LlmDreamCycle.toDreamCycle Sample.ctx ⟨proposer,Sample.embedder⟩ ran_at)
      Sample.moment) s report t → t = s ∧ report.Settles Sample.ctx Sample.cycleLibraries.history facts s := by
  have ends : Ends window Sample.blank (fun found t => decide (found.2.length = 2) && t.storage.activeSpace.isSome && found.2.all fun f =>
      (F64.ofRat 0).le (.num f.base_importance) && (F64.num f.base_importance).le (F64.ofRat 1)) = true := by decide +kernel
  obtain ⟨found,u,committed,holds⟩ := commits_of_ends ends
  obtain ⟨_,_,_,adding⟩ := commits_bind.mp committed
  obtain ⟨_,s,_,building⟩ := commits_bind.mp adding
  obtain ⟨c,m,built,selecting⟩ := commits_bind.mp building
  obtain rfl : m = s := (CycleWindow.commits_build_cycle_context built).1
  obtain ⟨facts,_,ported,last⟩ := commits_bind.mp selecting
  obtain ⟨db,selected,rfl⟩ := commits_port.mp ported
  obtain ⟨rfl,rfl⟩ := commits_pure.mp last
  obtain rfl : db = m.storage := (commits_readRows.mp selected).2.2
  simp only [Bool.and_eq_true,decide_eq_true_eq,List.all_eq_true] at holds
  obtain ⟨⟨two,identified⟩,unit⟩ := holds
  have identity : m.storage.activeSpace ≠ none := Option.isSome_iff_ne_none.mp identified
  exact ⟨m,facts,two,(llm_cycle_settles_iff rfl rfl identity serves built selected).mpr unit⟩

open Consolidation.Sample in
/-- A promoted fact of importance two is in the window. The report that merges it is
    rejected, and nothing is marked. -/
theorem overrated_merge_rejected : ¬ ∀ (ctx : MemoryCtx) (libraries : CycleLibraries) (cycle : LlmDreamCycle) (s t : Engine) (report : CycleReport)
    (facts : List Fact) (ran_at now : DateTime), s.storage.activeSpace ≠ none → cycle.embedder.Serves ctx.backend.embed_dim → cycle.proposer.Capped →
      facts = FactStore.undreamtRows report.metadata.time_window.start report.metadata.time_window.end [] none s.storage.toTables →
        Commits (run_dream_cycle ctx libraries (cycle.toDreamCycle ctx ran_at) now) s report t → report.Settles ctx libraries.history facts t := by
  intro claim
  have ends : Ends overrated Sample.blank (fun _ t => t.storage.activeSpace.isSome) = true := by decide +kernel
  obtain ⟨report,t,committed,identified⟩ := commits_of_ends ends
  obtain ⟨_,s₁,first,rest⟩ := commits_bind.mp committed
  obtain ⟨_,s,second,ran⟩ := commits_bind.mp rest
  have rejected : Ends (overrated >>= fun report => apply_cycle_report Sample.ctx Sample.cycleLibraries.history report Sample.moment) Sample.blank
      (fun _ _ => true) = false := by decide +kernel
  obtain ⟨rfl,_⟩ := LlmDreamCycle.commits_cycle ran
  have identity : t.storage.activeSpace ≠ none := Option.isSome_iff_ne_none.mp identified
  obtain ⟨_,accepted⟩ := claim Sample.ctx Sample.cycleLibraries merging t t report _ Sample.moment Sample.moment identity serves merging_capped rfl ran
  obtain ⟨result,u,applied,_⟩ := accepted Sample.moment
  have whole : Commits (overrated >>= fun report => apply_cycle_report Sample.ctx Sample.cycleLibraries.history report Sample.moment) Sample.blank result u :=
    commits_bind.mpr ⟨report,t,committed,applied⟩
  have reached : Ends (overrated >>= fun report => apply_cycle_report Sample.ctx Sample.cycleLibraries.history report Sample.moment) Sample.blank
      (fun _ _ => true) = true := ends_of_commits whole
  rw [rejected] at reached
  cases reached

end MemoryEngine
