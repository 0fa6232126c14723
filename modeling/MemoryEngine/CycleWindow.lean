import MemoryEngine.DreamCycle
import MemoryEngine.CycleTouched
import MemoryEngine.Watermark

/-! What the windows of the cycles find. A cycle reads the watermark, takes the clock for
the end of its window and selects in another transaction; facts are added and reports
are applied in between. A fact that ends at or before the watermark is in no window any
more. -/

namespace MemoryEngine
open Time KeyedTable Transaction Ranking

namespace CycleWindow

/-- The store, and the windows of the cycles that have begun and not yet selected. -/
structure State where
  storage : Db
  begun : List TimeWindow

inductive Action where
  | add (fact : NewFact)
  | aside
  | skip
  | start (window : TimeWindow)
  | select (window : TimeWindow) (facts : List Fact)
  | abandon
  | apply (report : CycleReport)

/-- What the clock of the host shows. -/
def Clock (now : DateTime) : Prop := now.Readable ∧ now.frac < 1000000000

instance (now : DateTime) : Decidable (Clock now) := inferInstanceAs (Decidable (_ ∧ _))

/-- The interval from the one instant to the other is not empty. -/
def Spans (t_valid t_invalid : Option DateTime) : Prop := ∀ a ∈ t_valid, ∀ b ∈ t_invalid, a < b

instance (t_valid t_invalid : Option DateTime) : Decidable (Spans t_valid t_invalid) := inferInstanceAs (Decidable (∀ a ∈ t_valid, ∀ b ∈ t_invalid, a < b))

/-- The fact waits for a cycle. -/
def Awaits (f : Fact) : Prop := f.Undreamt ∧ Spans f.t_valid f.t_invalid

instance (f : Fact) : Decidable (Awaits f) := inferInstanceAs (Decidable (_ ∧ _))

/-- The start of the validity has passed at an instant. -/
def Passed (t_valid : Option DateTime) (stop : DateTime) : Prop := ∀ a ∈ t_valid, a < stop

instance (t_valid : Option DateTime) (stop : DateTime) : Decidable (Passed t_valid stop) := inferInstanceAs (Decidable (∀ a ∈ t_valid, a < stop))

/-- Once the start of the validity has passed at the end of the window, its text sorts before
    the end, and the text of the end of the validity, if there is one, after the start of
    the window. -/
def InTime (t_valid t_invalid : Option DateTime) (window : TimeWindow) : Prop :=
  Passed t_valid window.end → (∀ a ∈ t_valid, a.textLt window.end = true) ∧ ∀ b ∈ t_invalid, window.start.textLt b = true

section system
variable (self : SqliteBackend) (libraries : CycleLibraries)

/-- The window of a cycle that reads the watermark from these tables. -/
def Next (watermark : Option String) (window : TimeWindow) : Prop :=
  Clock window.end ∧ windowStart libraries watermark = .ok window.start

/-- A window that a cycle has, or can have if it begins now. -/
def Serves (s : State) (window : TimeWindow) : Prop :=
  window ∈ s.begun ∨ Next libraries (s.storage.config.lookup LAST_DREAM_CYCLE_AT) window

/-- Every fact that waits is in every window that its validity has begun by. -/
def Complete (s : State) : Prop := ∀ f ∈ s.storage.facts.rows, Awaits f → ∀ window, Serves libraries s window →
  Passed f.t_valid window.end → f ∈ FactStore.undreamtRows window.start window.end [] none s.storage.toTables

/-- One transaction of a call. -/
inductive Step : State → Action → State → Prop where
  | add {s : State} {t : Db} {fact : NewFact} {fingerprint : EmbeddingFingerprint} {id : FactId} (active : fact.t_expired = none)
      (committed : Commits (Ingest.insert_fact_atomic self fact fingerprint self.embed_dim) s.storage id t) : Step s (.add fact) ⟨t,s.begun⟩
  | aside {s : State} {t : Db} (facts : t.facts = s.storage.facts) (config : t.config = s.storage.config) : Step s .aside ⟨t,s.begun⟩
  | skip {s : State} {t : Db} {max_id : FactId} (committed : Commits (Config.set_config CALLER_WRITE_CURSOR (toString max_id)) s.storage () t) :
      Step s .skip ⟨t,s.begun⟩
  | start {s : State} {window : TimeWindow} (next : Next libraries (s.storage.config.lookup LAST_DREAM_CYCLE_AT) window) :
      Step s (.start window) ⟨s.storage,window :: s.begun⟩
  | select {s : State} {front rest : List TimeWindow} {window : TimeWindow} {facts : List Fact} (begun : s.begun = front ++ window :: rest)
      (listed : Commits (FactStore.list_undreamt_in_period self window.start window.end [] none) s.storage facts s.storage) :
      Step s (.select window facts) ⟨s.storage,front ++ rest⟩
  | abandon {s : State} {front rest : List TimeWindow} {window : TimeWindow} (begun : s.begun = front ++ window :: rest) :
      Step s .abandon ⟨s.storage,front ++ rest⟩
  | apply {s : State} {t : Db} {report : CycleReport} {now : DateTime} {pass : Cycle.ApplyPass}
      (committed : Commits (Cycle.apply_cycle_deltas_atomic self libraries.history report now) s.storage pass t) :
      Step s (.apply report) ⟨t,s.begun⟩

/-- The interleavings whose steps are allowed. -/
inductive Run (allowed : State → Action → Prop) (s : State) : State → Prop where
  | refl : Run allowed s s
  | step {m t : State} {action : Action} (before : Run allowed s m) (may : allowed m action) (step : Step self libraries m action t) :
      Run allowed s t

/-- No fact is added too late for the windows that are still to select, and no report moves
    the watermark past a fact that waits and that it does not touch. -/
def Timely (s : State) : Action → Prop
  | .add fact => fact.metadata.hasKey "dream_cycle" = false → Spans fact.t_valid fact.t_invalid →
      ∀ window, Serves libraries s window → InTime fact.t_valid fact.t_invalid window
  | .apply report => ∀ f ∈ s.storage.facts.rows, Awaits f → f.id ∉ report.touched →
      ∀ window, Next libraries (some report.metadata.time_window.end.to_rfc3339) window → InTime f.t_valid f.t_invalid window
  | _ => True

end system

variable {self : SqliteBackend} {libraries : CycleLibraries}

theorem mem_undreamtRows {start stop : DateTime} {t : Tables} {f : Fact} : f ∈ FactStore.undreamtRows start stop [] none t ↔
    f ∈ t.facts.rows ∧ f.Undreamt ∧ (∀ a ∈ f.t_valid, a.textLt stop = true) ∧ ∀ b ∈ f.t_invalid, start.textLt b = true := by
  rw [FactStore.undreamtRows,mem_descending,List.mem_filter]
  simp only [FactStore.overlapsByText,FactStore.inScopes,List.isEmpty_nil,Bool.true_or,Bool.and_true,Option.all_none,Bool.and_eq_true,
    Option.isNone_iff_eq_none,Bool.not_eq_true',Option.all_eq_true,Fact.Undreamt,Option.mem_def]
  tauto

/-- A waiting fact is found exactly by what the statement compares. -/
theorem found_iff {s : State} {f : Fact} (member : f ∈ s.storage.facts.rows) (awaits : Awaits f) {window : TimeWindow} :
    f ∈ FactStore.undreamtRows window.start window.end [] none s.storage.toTables ↔
      (∀ a ∈ f.t_valid, a.textLt window.end = true) ∧ ∀ b ∈ f.t_invalid, window.start.textLt b = true := by
  rw [mem_undreamtRows]
  exact ⟨fun found => found.2.2,fun compared => ⟨member,awaits.1,compared⟩⟩

/-- Completeness compares the texts of the waiting facts. -/
theorem complete_iff {s : State} : Complete libraries s ↔
    ∀ f ∈ s.storage.facts.rows, Awaits f → ∀ window, Serves libraries s window → InTime f.t_valid f.t_invalid window := by
  constructor
  · intro complete f member awaits window serves passed
    exact (found_iff member awaits).mp (complete f member awaits window serves passed)
  · intro timely f member awaits window serves passed
    exact (found_iff member awaits).mpr (timely f member awaits window serves passed)

/-- Only the facts and the windows matter. -/
theorem Complete.congr {s t : State} (complete : Complete libraries s) (facts : t.storage.facts = s.storage.facts)
    (serves : ∀ window, Serves libraries t window → Serves libraries s window) : Complete libraries t := by
  rw [complete_iff] at complete ⊢
  rw [facts]
  exact fun f member awaits window served => complete f member awaits window (serves window served)

theorem serves_congr {s t : State} (begun : ∀ window ∈ t.begun, window ∈ s.begun)
    (watermark : t.storage.config.lookup LAST_DREAM_CYCLE_AT = s.storage.config.lookup LAST_DREAM_CYCLE_AT) (window : TimeWindow)
    (served : Serves libraries t window) : Serves libraries s window := by
  rcases served with waiting | next
  · exact .inl (begun window waiting)
  · rw [watermark] at next
    exact .inr next

/-- An insertion adds its row and leaves the watermark. -/
theorem commits_insert_fact_atomic {fact : NewFact} {fingerprint : EmbeddingFingerprint} {s t : Db} {id : FactId}
    (committed : Commits (Ingest.insert_fact_atomic self fact fingerprint self.embed_dim) s id t) : t.config = s.config ∧
      ∃ row : Fact, row.t_expired = fact.t_expired ∧ row.t_valid = fact.t_valid ∧ row.t_invalid = fact.t_invalid ∧ row.metadata = fact.metadata ∧
        ∀ f, f ∈ t.facts.rows ↔ f ∈ s.facts.rows ∨ f = row := by
  obtain ⟨_,m,stamped,inserted⟩ := commits_bind.mp committed
  obtain ⟨_,importance,_,_,written⟩ := FactStore.commits_insert.mp inserted
  have config := EmbeddingMeta.leaves_record_if_absent Tables.config (fun _ _ => rfl) _ _ _ _ _ stamped
  have facts := EmbeddingMeta.leaves_record_if_absent Tables.facts (fun _ _ => rfl) _ _ _ _ _ stamped
  refine ⟨by rw [written]; exact config,FactStore.newRow self fact importance m.facts.nextId,rfl,rfl,rfl,rfl,fun f => ?_⟩
  rw [written,Table.mem_insert,facts]

/-- A report sets the watermark to the end of its window. -/
theorem watermark_report {report : CycleReport} {now : DateTime} {s t : Db} {pass : Cycle.ApplyPass}
    (committed : Commits (Cycle.apply_cycle_deltas_atomic self libraries.history report now) s pass t) :
    t.config.lookup LAST_DREAM_CYCLE_AT = some report.metadata.time_window.end.to_rfc3339 := by
  obtain ⟨_,_,m,_,_,_,_,dated,appended⟩ := Cycle.commits_report.mp committed
  obtain ⟨history,written⟩ := Cycle.history_written appended
  have apart : LAST_DREAM_CYCLE_AT ≠ DREAM_CYCLE_HISTORY := by decide
  rw [written,Config.lookup_put_ne apart,commits_execute.mp dated]
  exact Config.lookup_put _ _ _

/-- After one more step the windows are complete if and only if the step was timely. -/
theorem complete_step {s t : State} {action : Action} (complete : Complete libraries s) (step : Step self libraries s action t) :
    Complete libraries t ↔ Timely libraries s action := by
  cases step with
  | @add t fact fingerprint id active committed =>
    obtain ⟨config,row,expiry,valid,invalid,metadata,rows⟩ := commits_insert_fact_atomic committed
    have same : ∀ window, Serves libraries ⟨t,s.begun⟩ window ↔ Serves libraries s window := by
      intro window
      rw [Serves,Serves,config]
    rw [complete_iff] at complete ⊢
    constructor
    · intro after unmarked spans window served
      have awaits : Awaits row := ⟨⟨expiry.trans active,by rw [metadata]; exact unmarked⟩,by rw [valid,invalid]; exact spans⟩
      have compared := after row ((rows row).mpr (.inr rfl)) awaits window ((same window).mpr served)
      rwa [valid,invalid] at compared
    · intro timely f member awaits window served
      have before := (same window).mp served
      rcases (rows f).mp member with old | rfl
      · exact complete f old awaits window before
      · have compared := timely (by rw [← metadata]; exact awaits.1.2) (by rw [← valid,← invalid]; exact awaits.2) window before
        rwa [valid,invalid]
  | aside facts config =>
    refine iff_of_true (complete.congr facts (serves_congr (fun _ waiting => waiting) ?_)) trivial
    rw [config]
  | skip committed =>
    have written := commits_execute.mp committed
    refine iff_of_true (complete.congr (by rw [written]) (serves_congr (fun _ waiting => waiting) ?_)) trivial
    rw [written]
    exact Config.lookup_put_ne (by decide) _
  | start next =>
    refine iff_of_true (complete.congr rfl fun window served => ?_) trivial
    rcases served with waiting | later
    · rcases List.mem_cons.mp waiting with rfl | old
      · exact .inr next
      · exact .inl old
    · exact .inr later
  | select begun listed =>
    refine iff_of_true (complete.congr rfl (serves_congr (fun window waiting => ?_) rfl)) trivial
    rw [begun,List.mem_append,List.mem_cons]
    exact (List.mem_append.mp waiting).imp_right .inr
  | abandon begun =>
    refine iff_of_true (complete.congr rfl (serves_congr (fun window waiting => ?_) rfl)) trivial
    rw [begun,List.mem_append,List.mem_cons]
    exact (List.mem_append.mp waiting).imp_right .inr
  | @apply t report now pass committed =>
    obtain ⟨back,kept⟩ := Cycle.undreamt_report committed
    have watermark := watermark_report committed
    rw [complete_iff] at complete ⊢
    constructor
    · intro after f member awaits away window next
      obtain ⟨g,there,shape⟩ := kept f member awaits.1 away
      have awaits' : Awaits g := by
        rw [shape]
        exact awaits
      have served : Serves libraries ⟨t,s.begun⟩ window := .inr (by rw [watermark]; exact next)
      have compared := after g there awaits' window served
      rwa [shape] at compared
    · intro timely g there awaits window served
      obtain ⟨f,member,undreamt,away,shape⟩ := back g there awaits.1
      rw [shape] at awaits ⊢
      rcases served with waiting | next
      · exact complete f member ⟨undreamt,awaits.2⟩ window (.inl waiting)
      · rw [watermark] at next
        exact timely f member ⟨undreamt,awaits.2⟩ away window next

theorem Run.complete {s t : State} (run : Run self libraries (Timely libraries) s t) (complete : Complete libraries s) : Complete libraries t := by
  induction run with
  | refl => exact complete
  | step before may step ih => exact (complete_step ih step).mpr may

theorem complete_fresh (begun : List TimeWindow) : Complete libraries ⟨Db.fresh,begun⟩ :=
  fun _ member => absurd member List.not_mem_nil

/-- A cycle that selects in a complete state finds every fact that waits and has begun. -/
theorem selected_of_complete {s t : State} {window : TimeWindow} {facts : List Fact} (complete : Complete libraries s)
    (step : Step self libraries s (.select window facts) t) : ∀ f ∈ s.storage.facts.rows, Awaits f → Passed f.t_valid window.end → f ∈ facts := by
  intro f member awaits passed
  cases step with
  | select begun listed =>
    have served : window ∈ s.begun := by
      rw [begun]
      exact List.mem_append_right _ List.mem_cons_self
    obtain ⟨rfl,_⟩ := commits_readRows.mp listed
    exact complete f member awaits window (.inl served) passed

/-! The calls are runs of such steps. -/
section calls
variable {ctx : MemoryCtx}

/-- The interleavings without any condition. -/
abbrev Steps (self : SqliteBackend) (libraries : CycleLibraries) : State → State → Prop := Run self libraries (fun _ _ => True)

theorem Run.trans {allowed : State → Action → Prop} {s m t : State} (first : Run self libraries allowed s m)
    (second : Run self libraries allowed m t) : Run self libraries allowed s t := by
  induction second with
  | refl => exact first
  | step before may step ih => exact ih.step may step

theorem steps_one {s t : State} {action : Action} (step : Step self libraries s action t) : Steps self libraries s t :=
  Run.refl.step trivial step

/-- A call of `add_fact` is two transactions. -/
theorem steps_add_fact {req : AddFactRequest} {embedder : EmbeddingProvider} {classifier : Option PersistenceClassifier} {now : DateTime}
    {s t : Engine} {id : FactId} (committed : Commits (add_fact ctx req embedder classifier now) s id t) (begun : List TimeWindow) :
    Steps ctx.backend libraries ⟨s.storage,begun⟩ ⟨t.storage,begun⟩ := by
  obtain ⟨embedding,scope_id,m,found,inserted⟩ := commits_add_fact committed
  obtain ⟨config,facts⟩ := leaves_factScope found
  have aside : Steps ctx.backend libraries ⟨s.storage,begun⟩ ⟨m.storage,begun⟩ := steps_one (.aside facts config)
  exact aside.step trivial (.add rfl inserted)

/-- The cycle selects the facts of its window and then plans over what it read. -/
def Selects (ctx : MemoryCtx) (cycle : DreamCycle) : Prop := ∃ plan : CycleContext → List Fact → Op CycleReport,
  (∀ c facts, Keeps (fun s t => t = s) (plan c facts)) ∧ ∀ c, cycle.run c = do
    let facts ← port (FactStore.list_undreamt_in_period ctx.backend c.time_window.start c.time_window.end [] none)
    plan c facts

/-- What a context is made of. -/
theorem commits_build_cycle_context {now : DateTime} {s t : Engine} {c : CycleContext}
    (committed : Commits (build_cycle_context ctx libraries now) s c t) :
    t = s ∧ c.time_window.end = now ∧ windowStart libraries (s.storage.config.lookup LAST_DREAM_CYCLE_AT) = .ok c.time_window.start ∧
      priorReports libraries (s.storage.config.lookup DREAM_CYCLE_HISTORY) = .ok c.prior_reports := by
  obtain ⟨wisdom,_,pinned,rest⟩ := commits_bind.mp committed
  obtain ⟨_,listed,rfl⟩ := commits_port.mp pinned
  obtain ⟨_,_,rfl⟩ := commits_readRows.mp listed
  obtain ⟨mark,_,ported,rest⟩ := commits_bind.mp rest
  obtain ⟨_,read,rfl⟩ := commits_port.mp ported
  obtain ⟨rfl,rfl⟩ := commits_query.mp read
  obtain ⟨start,_,parsed,rest⟩ := commits_bind.mp rest
  obtain ⟨begins,rfl⟩ := commits_lift.mp parsed
  obtain ⟨stored,_,ported,rest⟩ := commits_bind.mp rest
  obtain ⟨_,read,rfl⟩ := commits_port.mp ported
  obtain ⟨rfl,rfl⟩ := commits_query.mp read
  obtain ⟨reports,_,decoded,last⟩ := commits_bind.mp rest
  obtain ⟨reads,rfl⟩ := commits_lift.mp decoded
  obtain ⟨rfl,rfl⟩ := commits_pure.mp last
  exact ⟨rfl,rfl,begins,reads⟩

/-- A cycle that selects begins a window and selects from it. -/
theorem steps_run_dream_cycle {cycle : DreamCycle} (selects : Selects ctx cycle) {now : DateTime} (clock : Clock now) {s t : Engine}
    {report : CycleReport} (committed : Commits (run_dream_cycle ctx libraries cycle now) s report t) (begun : List TimeWindow) :
    Steps ctx.backend libraries ⟨s.storage,begun⟩ ⟨t.storage,begun⟩ := by
  obtain ⟨plan,reads,shape⟩ := selects
  obtain ⟨c,_,built,ran⟩ := commits_bind.mp (commits_gated committed)
  obtain ⟨unchanged,stop,start,_⟩ := commits_build_cycle_context built
  rw [shape,unchanged] at ran
  obtain ⟨facts,m,ported,planned⟩ := commits_bind.mp ran
  obtain ⟨db,listed,rfl⟩ := commits_port.mp ported
  obtain rfl := reads _ _ _ _ _ planned
  have same : db = s.storage := (commits_readRows.mp listed).2.2
  rw [same] at listed ⊢
  have first : Steps ctx.backend libraries ⟨s.storage,begun⟩ ⟨s.storage,c.time_window :: begun⟩ := steps_one (.start ⟨stop ▸ clock,start⟩)
  have second : Step ctx.backend libraries ⟨s.storage,c.time_window :: begun⟩ (.select c.time_window facts) ⟨s.storage,[] ++ begun⟩ :=
    .select rfl listed
  exact first.step trivial second

/-- Standing down moves the cursor and nothing else. -/
theorem steps_stand_down {cursor : Int} {newest : Option FactId} {reason : Option SkipReason} {s t : Engine}
    (committed : Commits (stand_down cursor newest) s reason t) (begun : List TimeWindow) :
    Steps ctx.backend libraries ⟨s.storage,begun⟩ ⟨t.storage,begun⟩ := by
  cases newest with
  | none =>
    obtain ⟨_,rfl⟩ := commits_pure.mp committed
    exact .refl
  | some max_id =>
    rw [stand_down] at committed
    split at committed
    · obtain ⟨_,m,ported,last⟩ := commits_bind.mp committed
      obtain ⟨_,rfl⟩ := commits_pure.mp last
      obtain ⟨db,set,rfl⟩ := commits_port.mp ported
      exact steps_one (.skip set)
    · obtain ⟨_,rfl⟩ := commits_pure.mp committed
      exact .refl

/-- A guarded call moves the cursor, or begins a window and selects from it. -/
theorem steps_run_dream_cycle_guarded {cycle : DreamCycle} (selects : Selects ctx cycle) {now : DateTime} (clock : Clock now) {s t : Engine}
    {outcome : CycleOutcome} (committed : Commits (run_dream_cycle_guarded ctx libraries cycle now) s outcome t) (begun : List TimeWindow) :
    Steps ctx.backend libraries ⟨s.storage,begun⟩ ⟨t.storage,begun⟩ := by
  obtain ⟨value,_,ported,rest⟩ := commits_bind.mp (commits_gated committed)
  obtain ⟨_,read,rfl⟩ := commits_port.mp ported
  obtain ⟨_,rfl⟩ := commits_query.mp read
  obtain ⟨cursor,_,parsed,rest⟩ := commits_bind.mp rest
  obtain ⟨_,rfl⟩ := commits_lift.mp parsed
  obtain ⟨newest,_,ported,rest⟩ := commits_bind.mp rest
  obtain ⟨_,read,rfl⟩ := commits_port.mp ported
  obtain ⟨_,rfl⟩ := commits_query.mp read
  obtain ⟨reason,m,decided,rest⟩ := commits_bind.mp rest
  have decision : Steps ctx.backend libraries ⟨s.storage,begun⟩ ⟨m.storage,begun⟩ := steps_stand_down decided begun
  cases found : reason with
  | some why =>
    rw [found] at rest
    obtain ⟨_,rfl⟩ := commits_pure.mp rest
    exact decision
  | none =>
    rw [found] at rest
    obtain ⟨report,m',ran,last⟩ := commits_bind.mp rest
    split at last
    · exact absurd last commits_throw
    · obtain ⟨_,rfl⟩ := commits_pure.mp last
      exact decision.trans (steps_run_dream_cycle selects clock ran begun)

theorem steps_apply_cycle_report {report : CycleReport} {now : DateTime} {s t : Engine} {result : ApplyResult}
    (committed : Commits (apply_cycle_report ctx libraries.history report now) s result t) (begun : List TimeWindow) :
    Steps ctx.backend libraries ⟨s.storage,begun⟩ ⟨t.storage,begun⟩ := by
  obtain ⟨pass,applied,_⟩ := commits_apply_cycle_report committed
  exact steps_one (.apply applied)

end calls

/-- In an interleaving whose steps were all timely, one more step leaves every waiting fact
    in every window to come if and only if it is timely; and a cycle that selects finds
    every fact that waits and whose validity has begun. -/
theorem complete_iff_timely {s t u : State} {action : Action} (complete : Complete libraries s) (run : Run self libraries (Timely libraries) s t)
    (step : Step self libraries t action u) : (Complete libraries u ↔ Timely libraries t action) ∧ ∀ window facts, action = .select window facts →
      ∀ f ∈ t.storage.facts.rows, Awaits f → Passed f.t_valid window.end → f ∈ facts := by
  have held := run.complete complete
  refine ⟨complete_step held step,fun window facts selecting => ?_⟩
  rw [selecting] at step
  exact selected_of_complete held step

end CycleWindow

namespace Sample
open CycleWindow

/-- The reader of instants on the one text in use, and the history of a first cycle. -/
def cycleLibraries : CycleLibraries :=
  ⟨fun text => if text = moment.to_rfc3339 then .ok moment else .error "input contains invalid characters",Cycle.sampleCodec,Shuffle.keep Fact⟩

/-- A cycle that found nothing and ended at the moment. -/
def quietCycle : Sql Cycle.ApplyPass := Cycle.apply_cycle_deltas_atomic backend cycleLibraries.history (Cycle.sampleReport []) moment

/-- A fact that was valid for a year long before the moment. -/
def backdated : NewFact := { newFact "a" with t_valid := some { moment with year := 2020 }, t_invalid := some { moment with year := 2021 } }

def laterWindow : TimeWindow := ⟨moment,{ moment with year := 2027 }⟩

/-- Add a fact after that cycle and select in the next one. -/
def selectAfter (fact : NewFact) : Sql (Db × List Fact) := do
  let _ ← quietCycle
  let _ ← Ingest.insert_fact_atomic backend fact space.fingerprint 1
  let facts ← FactStore.list_undreamt_in_period backend laterWindow.start laterWindow.end [] none
  return (← get,facts)

end Sample

namespace CycleWindow

theorem complete_iff_timely_sample : ∃ (pass : Cycle.ApplyPass) (m t : Db) (id : FactId), Commits Sample.quietCycle Db.fresh pass m ∧
    Commits (Ingest.insert_fact_atomic Sample.backend (Sample.newFact "a") Sample.space.fingerprint 1) m id t ∧
      ((Complete Sample.cycleLibraries ⟨t,[]⟩ ↔ Timely Sample.cycleLibraries ⟨m,[]⟩ (.add (Sample.newFact "a"))) ∧
        ∀ window facts, Action.add (Sample.newFact "a") = .select window facts → ∀ f ∈ m.facts.rows, Awaits f → Passed f.t_valid window.end →
          f ∈ facts) := by
  have ends : Ends (Sample.selectAfter (Sample.newFact "a")) Db.fresh (fun _ _ => true) = true := by decide +kernel
  obtain ⟨_,_,both,_⟩ := commits_of_ends ends
  obtain ⟨pass,m,first,rest⟩ := commits_bind.mp both
  obtain ⟨id,t,second,_⟩ := commits_bind.mp rest
  have timely : Timely Sample.cycleLibraries ⟨Db.fresh,[]⟩ (.apply (Cycle.sampleReport [])) := fun _ member => absurd member List.not_mem_nil
  have run : Run Sample.backend Sample.cycleLibraries (Timely Sample.cycleLibraries) ⟨Db.fresh,[]⟩ ⟨m,[]⟩ := Run.refl.step timely (.apply first)
  exact ⟨pass,m,t,id,first,second,complete_iff_timely (complete_fresh []) run (.add rfl second)⟩

/-- A fact that is added with an end before the watermark waits, and the next cycle does not
    select it. -/
theorem backdated_fact_passed_over : ¬ ∀ (self : SqliteBackend) (libraries : CycleLibraries) (s t : State) (window : TimeWindow) (facts : List Fact),
    Steps self libraries ⟨Db.fresh,[]⟩ s → Step self libraries s (.select window facts) t →
      ∀ f ∈ s.storage.facts.rows, Awaits f → Passed f.t_valid window.end → f ∈ facts := by
  intro claim
  have ends : Ends (Sample.selectAfter Sample.backdated) Db.fresh (fun found t => decide (found.2.length = 0 ∧
    ∃ f ∈ t.facts.rows, Awaits f ∧ Passed f.t_valid Sample.laterWindow.end)) = true := by decide +kernel
  obtain ⟨⟨_,facts⟩,t,all,missed⟩ := commits_of_ends ends
  obtain ⟨empty,f,member,awaits,passed⟩ := of_decide_eq_true missed
  obtain ⟨pass,m,applied,rest⟩ := commits_bind.mp all
  obtain ⟨id,n,inserted,rest⟩ := commits_bind.mp rest
  obtain ⟨facts',n',listed,last⟩ := commits_bind.mp rest
  obtain ⟨_,_,current,closed⟩ := commits_bind.mp last
  obtain ⟨rfl,rfl⟩ := commits_get.mp current
  obtain ⟨same,rfl⟩ := commits_pure.mp closed
  obtain ⟨_,rfl⟩ := Prod.mk.inj same
  have unchanged : t = n := (commits_readRows.mp listed).2.2
  rw [← unchanged] at listed inserted
  have watermark : t.config.lookup LAST_DREAM_CYCLE_AT = some Sample.moment.to_rfc3339 := by
    have stop : (Cycle.sampleReport []).metadata.time_window.end = Sample.moment := rfl
    rw [(commits_insert_fact_atomic inserted).1,watermark_report applied,stop]
  have next : Next Sample.cycleLibraries (t.config.lookup LAST_DREAM_CYCLE_AT) Sample.laterWindow := by
    rw [watermark]
    exact ⟨by decide,rfl⟩
  have first : Step Sample.backend Sample.cycleLibraries ⟨Db.fresh,[]⟩ (.apply (Cycle.sampleReport [])) ⟨m,[]⟩ := .apply applied
  have begun : Steps Sample.backend Sample.cycleLibraries ⟨Db.fresh,[]⟩ ⟨t,[Sample.laterWindow]⟩ :=
    ((steps_one first).step trivial (.add rfl inserted)).step trivial (.start next)
  have found := claim _ _ _ ⟨t,[] ++ []⟩ _ _ begun (.select rfl listed) f member awaits passed
  have none_ : facts = [] := List.length_eq_zero_iff.mp empty
  rw [none_] at found
  cases found

end CycleWindow
end MemoryEngine
