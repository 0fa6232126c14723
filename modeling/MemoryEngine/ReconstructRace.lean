import MemoryEngine.ReconstructRuns

/-! Reconstructions at the same time as each other and as other calls. Every transaction of
a call is a step of its own, so another call may commit between the read of a window and
the write of its vectors. -/

namespace MemoryEngine
open Time KeyedTable Transaction FactVectors EmbeddingSpaces Reconstruct

namespace ReconstructCall

/-- Where a call stands; `left` more passes follow the one under way. -/
inductive Phase where
  | opening
  | reading (left : Nat) (after_id : FactId)
  | writing (left : Nat) (rows : List (FactId × Embedding)) (last_id : FactId)
  | promoting
  | ended (outcome : Option PromoteOutcome)

/-- What follows a pass: the catch-up, then the promotion. -/
def Phase.next : Nat → Phase
  | 0 => .promoting
  | left + 1 => .reading left 0

end ReconstructCall

structure ReconstructCall where
  target : EmbeddingFingerprint
  embedder : EmbeddingProvider
  phase : ReconstructCall.Phase

namespace ReconstructCall

/-- One transaction of a call. A window is embedded with no transaction open. -/
inductive Step (s : Db) : ReconstructCall → Db → ReconstructCall → Prop where
  | begin_populating {fp : EmbeddingFingerprint} {embedder : EmbeddingProvider} {t : Db}
      (committed : Commits (EmbeddingSpaces.begin_populating ⟨space_name_for fp,fp,.Populating⟩) s () t) :
      Step s ⟨fp,embedder,.opening⟩ t ⟨fp,embedder,.reading 1 0⟩
  | read {fp : EmbeddingFingerprint} {embedder : EmbeddingProvider} {left : Nat} {after_id : FactId} {window : List (FactId × String)}
      {last : FactId × String} {rows : List (FactId × Embedding)}
      (fetched : Commits (next_backfill_window (space_name_for fp) after_id DEFAULT_BACKFILL_BATCH) s window s)
      (reached : window.getLast? = some last) (embedded : embedWindow embedder fp.dim window = .ok rows) :
      Step s ⟨fp,embedder,.reading left after_id⟩ s ⟨fp,embedder,.writing left rows last.1⟩
  | filled {fp : EmbeddingFingerprint} {embedder : EmbeddingProvider} {left : Nat} {after_id : FactId}
      (fetched : Commits (next_backfill_window (space_name_for fp) after_id DEFAULT_BACKFILL_BATCH) s [] s) :
      Step s ⟨fp,embedder,.reading left after_id⟩ s ⟨fp,embedder,.next left⟩
  | write {fp : EmbeddingFingerprint} {embedder : EmbeddingProvider} {left n : Nat} {rows : List (FactId × Embedding)} {last_id : FactId} {t : Db}
      (committed : Commits (write_backfill_batch (space_name_for fp) rows) s n t) :
      Step s ⟨fp,embedder,.writing left rows last_id⟩ t ⟨fp,embedder,.reading left last_id⟩
  | promote {fp : EmbeddingFingerprint} {embedder : EmbeddingProvider} {outcome : PromoteOutcome} {t : Db}
      (committed : Commits (promote_space (space_name_for fp)) s outcome t) :
      Step s ⟨fp,embedder,.promoting⟩ t ⟨fp,embedder,.ended (some outcome)⟩

/-- The steps of one call, with nothing between them. -/
inductive Steps (s : Db) (call : ReconstructCall) : Db → ReconstructCall → Prop where
  | start : Steps s call s call
  | step {m t : Db} {call' call'' : ReconstructCall} (before : Steps s call m call') (step : Step m call' t call'') : Steps s call t call''

end ReconstructCall

namespace ReconstructCall.Steps

theorem trans {s m t : Db} {call call' call'' : ReconstructCall} (first : Steps s call m call') (second : Steps m call' t call'') :
    Steps s call t call'' := by
  induction second with
  | start => exact first
  | step before step ih => exact ih.step step

theorem single {s t : Db} {call call' : ReconstructCall} (step : call.Step s t call') : Steps s call t call' := .step .start step

end ReconstructCall.Steps

namespace Reconstruct
open ReconstructCall (Steps)
variable {fp : EmbeddingFingerprint} {embedder : EmbeddingProvider} {e e' : Engine} {n : Nat}

/-- The loop takes the steps of a pass. -/
theorem steps_backfillFrom (left : Nat) {fuel : Nat} {after_id : FactId} (passed : Passed e.storage.toTables (space_name_for fp) after_id)
    (enough : (pending e.storage.toTables (space_name_for fp) after_id).length < fuel)
    (committed : Commits (backfillFrom (space_name_for fp) embedder fp.dim DEFAULT_BACKFILL_BATCH fuel after_id) e n e') :
    Steps e.storage ⟨fp,embedder,.reading left after_id⟩ e'.storage ⟨fp,embedder,.next left⟩ := by
  induction fuel generalizing after_id e n with
  | zero => exact absurd enough (Nat.not_lt_zero _)
  | succ fuel ih =>
    obtain ⟨window,_,fetched,rest⟩ := commits_bind.mp committed
    obtain ⟨_,queried,rfl⟩ := commits_port.mp fetched
    obtain ⟨listed,rfl⟩ := commits_query.mp queried
    split at rest
    · rename_i none_
      obtain ⟨_,rfl⟩ := commits_pure.mp rest
      rw [List.getLast?_eq_none_iff.mp none_] at queried
      exact .single (.filled queried)
    · rename_i last reached
      obtain ⟨rows,_,embedded,writing⟩ := commits_bind.mp rest
      obtain ⟨made,rfl⟩ := commits_lift.mp embedded
      obtain ⟨k,_,ported,looping⟩ := commits_bind.mp writing
      obtain ⟨db,written,rfl⟩ := commits_port.mp ported
      obtain ⟨more,_,looped,ending⟩ := commits_bind.mp looping
      obtain ⟨_,rfl⟩ := commits_pure.mp ending
      have contents : db.toTables = (rows.foldl (insertVector (space_name_for fp)) (e.storage.toTables,0)).1 := by
        obtain ⟨_,_,counted,executing⟩ := commits_bind.mp written
        obtain ⟨_,rfl⟩ := commits_query.mp counted
        obtain ⟨_,_,executed,last⟩ := commits_bind.mp executing
        obtain ⟨_,rfl⟩ := commits_pure.mp last
        exact commits_execute.mp executed
      have keyed := (embedWindow_ok made).1
      rw [listed] at reached keyed
      obtain ⟨passed',less⟩ := passed_window passed reached keyed contents
      have later := ih (e := { e with storage := db }) passed' (Nat.lt_of_lt_of_le less (Nat.le_of_lt_succ enough)) looped
      rw [← listed] at reached
      exact ((Steps.single (.read queried reached made)).step (.write written)).trans later

theorem steps_backfill_space (left : Nat) (rested : Rested e.storage.toTables)
    (committed : Commits (backfill_space (space_name_for fp) embedder fp.dim DEFAULT_BACKFILL_BATCH) e n e') :
    Steps e.storage ⟨fp,embedder,.reading left 0⟩ e'.storage ⟨fp,embedder,.next left⟩ := by
  obtain ⟨engine,_,read,looping⟩ := commits_bind.mp committed
  obtain ⟨rfl,rfl⟩ := commits_get.mp read
  exact steps_backfillFrom left (fun f missing => rested.positive f (mem_unbackfilled.mp missing).1) (pending_short _ _) looping

/-- A call that commits takes its steps, from the opening of its space to the promotion. -/
theorem steps_reconstruct {ctx : MemoryCtx} {outcome : PromoteOutcome} (life : Life e.storage)
    (committed : Commits (reconstruct ctx fp embedder) e outcome e') : ∃ m promoted,
      Steps e.storage ⟨fp,embedder,.opening⟩ m ⟨fp,embedder,.promoting⟩ ∧ Commits (promote_space (space_name_for fp)) m promoted e'.storage := by
  obtain ⟨_,_,gated,body⟩ := commits_bind.mp committed
  obtain ⟨_,rfl⟩ := commits_lift.mp gated
  split at body
  · exact absurd body commits_throw
  · obtain ⟨_,_,opened,filling⟩ := commits_bind.mp body
    obtain ⟨m,begun,rfl⟩ := commits_port.mp opened
    obtain ⟨_,e₁,filled,catching⟩ := commits_bind.mp filling
    obtain ⟨_,e₂,caught,promoting⟩ := commits_bind.mp catching
    obtain ⟨promoted,_,ported,last⟩ := commits_bind.mp promoting
    obtain ⟨db,swapped,rfl⟩ := commits_port.mp ported
    obtain ⟨rfl,rfl⟩ := commits_pure.mp last
    have alive : Life m := .begin_populating life begun
    obtain ⟨alive₁,_⟩ := backfills_life ⟨space_name_for fp,fp,.Populating⟩ alive (begun_registry begun).1 rfl (commits_backfill_space filled)
    have first := steps_backfill_space 1 alive.rested filled
    have second := steps_backfill_space 0 alive₁.rested caught
    exact ⟨e₂.storage,promoted,((Steps.single (.begin_populating begun)).trans first).trans second,swapped⟩

end Reconstruct

/-- A store and the reconstructions on it. -/
structure ReconstructRace where
  storage : Db
  calls : List ReconstructCall

namespace ReconstructRace

inductive Event where
  | port (call : PortWrite)
  | start (call : ReconstructCall)
  | advance (call : ReconstructCall)
  | fail (call : ReconstructCall)

/-- A call that fails ends, and leaves what its transactions have committed. -/
inductive Step (r : ReconstructRace) : Event → ReconstructRace → Prop where
  | port {self : SqliteBackend} {call : PortWrite} {db : Db} (ordinary : ¬ call.OnSpaces) (committed : Commits (call.run self) r.storage () db) :
      Step r (.port call) { r with storage := db }
  | start {fp : EmbeddingFingerprint} {embedder : EmbeddingProvider} (declared : fp.dim = embedder.fingerprint.dim) :
      Step r (.start ⟨fp,embedder,.opening⟩) { r with calls := ⟨fp,embedder,.opening⟩ :: r.calls }
  | advance {call call' : ReconstructCall} {front rest : List ReconstructCall} {db : Db} (running : r.calls = front ++ call :: rest)
      (step : call.Step r.storage db call') : Step r (.advance call) ⟨db,front ++ call' :: rest⟩
  | fail {call : ReconstructCall} {front rest : List ReconstructCall} (running : r.calls = front ++ call :: rest) :
      Step r (.fail call) { r with calls := front ++ { call with phase := .ended none } :: rest }

/-- The steps that are all allowed where they are taken. -/
inductive Run (allowed : ReconstructRace → Event → Prop) (start : ReconstructRace) : ReconstructRace → Prop where
  | start : Run allowed start start
  | step {r r' : ReconstructRace} {event : Event} (before : Run allowed start r) (may : allowed r event) (step : Step r event r') :
      Run allowed start r'

/-- No window is written into the space that serves. -/
def Open (r : ReconstructRace) : Event → Prop
  | .advance ⟨fp,_,.writing _ _ _⟩ => ∀ active, r.storage.activeSpace = some active → active.name ≠ space_name_for fp
  | _ => True

/-- The served space has no vectors apart from the facts. -/
def Idle (r : ReconstructRace) : Prop :=
  ∀ active, r.storage.activeSpace = some active → ∀ v ∈ r.storage.fact_vectors, v.space_id ≠ active.name

/-- A promotion can retain the served vectors. -/
def Retains (r : ReconstructRace) : Prop :=
  ∀ active, r.storage.activeSpace = some active →
    ((retain active.name r.storage.toTables).fact_vectors.map (fun v => (v.fact_id,v.space_id))).Nodup

theorem Idle.retains {r : ReconstructRace} (idle : r.Idle) : r.Retains := fun active serving => keys_retain (idle active serving)

/-- The vectors that wait to be written are not none. -/
def Busy (call : ReconstructCall) : Prop := ∀ left rows last_id, call.phase = .writing left rows last_id → rows ≠ []

/-- What an open run keeps. -/
structure Sound (r : ReconstructRace) : Prop where
  rested : Rested r.storage.toTables
  busy : ∀ call ∈ r.calls, Busy call

variable {r r' : ReconstructRace} {event : Event}

theorem Sound.idle (sound : r.Sound) : r.Idle := sound.rested.idle

/-- What holds of every call still does when one of them has gone on. -/
theorem forall_advanced {P : ReconstructCall → Prop} {calls front rest : List ReconstructCall} {call call' : ReconstructCall}
    (all : ∀ c ∈ calls, P c) (running : calls = front ++ call :: rest) (one : P call') : ∀ c ∈ front ++ call' :: rest, P c := by
  intro c listed
  rcases List.mem_append.mp listed with early | late
  · exact all c (running ▸ List.mem_append_left _ early)
  · rcases List.mem_cons.mp late with rfl | later
    · exact one
    · exact all c (running ▸ List.mem_append_right _ (List.mem_cons_of_mem _ later))

/-- A window that is embedded gives vectors. -/
theorem rows_ne_nil {embedder : EmbeddingProvider} {dim : Nat} {window : List (FactId × String)} {last : FactId × String}
    {rows : List (FactId × Embedding)} (reached : window.getLast? = some last) (embedded : embedWindow embedder dim window = .ok rows) :
    rows ≠ [] := by
  rintro rfl
  have keyed := (embedWindow_ok embedded).1
  rw [List.map_nil] at keyed
  rw [List.map_eq_nil_iff.mp keyed.symm] at reached
  cases reached

theorem sound_advance (sound : r.Sound) {call call' : ReconstructCall} {front rest : List ReconstructCall} {db : Db} (may : r.Open (.advance call))
    (running : r.calls = front ++ call :: rest) (step : call.Step r.storage db call') : Sound ⟨db,front ++ call' :: rest⟩ := by
  cases step with
  | begin_populating committed =>
    exact ⟨rested_begun sound.rested committed,forall_advanced sound.busy running fun _ _ _ same => by cases same⟩
  | read fetched reached embedded =>
    refine ⟨sound.rested,forall_advanced sound.busy running fun left rows last_id same => ?_⟩
    cases same
    exact rows_ne_nil reached embedded
  | @filled fp embedder left after_id fetched =>
    refine ⟨sound.rested,forall_advanced sound.busy running fun _ _ _ same => ?_⟩
    cases left <;> cases same
  | write committed =>
    exact ⟨rested_filled sound.rested may committed,forall_advanced sound.busy running fun _ _ _ same => by cases same⟩
  | promote committed =>
    exact ⟨rested_promote sound.rested committed,forall_advanced sound.busy running fun _ _ _ same => by cases same⟩

theorem sound_step (sound : r.Sound) (may : r.Open event) (step : Step r event r') : r'.Sound := by
  cases step with
  | port ordinary committed =>
    exact { sound with rested := rested_write sound.rested (Tables.Writes.of_changes (PortWrite.makes _ ordinary _ _ _ committed)) }
  | start declared => exact { sound with busy := List.forall_mem_cons.mpr ⟨fun _ _ _ same => (by cases same),sound.busy⟩ }
  | advance running step => exact sound_advance sound may running step
  | fail running => exact { sound with busy := forall_advanced sound.busy running fun _ _ _ same => by cases same }

theorem Run.sound {s : Db} (life : Life s) (run : Run Open ⟨s,[]⟩ r) : r.Sound := by
  induction run with
  | start => exact ⟨life.rested,fun _ listed => absurd listed List.not_mem_nil⟩
  | step before may step ih => exact sound_step ih may step

/-- The served space has no vectors of its own all through a run in which no window is
    written into it, so that every promotion can retain what it replaces; and after such a
    run, a step keeps it so exactly when it is not such a write. -/
theorem vectors_rest_iff {s : Db} (life : Life s) {r : ReconstructRace} (run : Run Open ⟨s,[]⟩ r) : r.Idle ∧ r.Retains ∧
    ∀ (r' : ReconstructRace) (event : Event), Step r event r' → (r'.Idle ∧ r'.Retains ↔ r.Open event) := by
  have sound := run.sound life
  refine ⟨sound.idle,sound.idle.retains,fun r' event step => ⟨?_,fun may => ?_⟩⟩
  · rintro ⟨idle,_⟩
    cases step with
    | advance running step =>
      cases step with
      | write committed =>
        intro active serving same
        obtain ⟨row,listed⟩ := List.exists_mem_of_ne_nil _ (sound.busy _ (running ▸ List.mem_append_right _ List.mem_cons_self) _ _ _ rfl)
        have spaces := congrArg Tables.embedding_spaces (commits_write_backfill_batch committed).1
        obtain ⟨_,_,counted,writing⟩ := commits_bind.mp committed
        obtain ⟨_,rfl⟩ := commits_query.mp counted
        obtain ⟨_,_,written,last⟩ := commits_bind.mp writing
        obtain ⟨_,rfl⟩ := commits_pure.mp last
        -- the vectors of the batch are there afterwards, whoever wrote them
        obtain ⟨v,member,_,named⟩ := filled_insertVectors _ (r.storage.toTables,0) listed
        rw [← commits_execute.mp written] at member
        exact idle active ((activeSpace_congr spaces).trans serving) v member (named.trans same.symm)
      | _ => trivial
    | _ => trivial
  · have idle := (sound_step sound may step).idle
    exact ⟨idle,idle.retains⟩

theorem Run.weaken {allowed : ReconstructRace → Event → Prop} {start : ReconstructRace} (run : Run allowed start r) :
    Run (fun _ _ => True) start r := by
  induction run with
  | start => exact .start
  | step before may step ih => exact ih.step trivial step

end ReconstructRace

namespace Reconstruct.Sample

def target : EmbeddingFingerprint := ⟨"w","p",1,none,"f32"⟩

/-- A call for one target. -/
def caller (phase : ReconstructCall.Phase) : ReconstructCall := ⟨target,embedder target,phase⟩

def batch : List (FactId × Embedding) := [(1,[0])]

/-- The first fact of the store, with its identity. -/
def added : PortWrite := .insert_fact_atomic (MemoryEngine.Sample.newFact "a") ⟨"a","p",1,none,"f32"⟩ 1

end Reconstruct.Sample

namespace ReconstructRace
open Reconstruct.Sample (target caller batch added)

theorem fetched_of_ends {s : Db} {name : String} {after_id : FactId} {limit : Nat} {expected : List (FactId × String)}
    (ends : Ends (next_backfill_window name after_id limit) s (fun window _ => decide (window = expected)) = true) :
    Commits (next_backfill_window name after_id limit) s expected s := by
  obtain ⟨window,t,read,same⟩ := commits_of_ends ends
  obtain rfl := of_decide_eq_true same
  obtain ⟨rfl,rfl⟩ := commits_query.mp read
  exact read

/-- Two calls for one target read the same window. The first writes it and promotes the
    space, and the second writes it late. -/
theorem late_batch : ∃ r r', Run Open ⟨Db.fresh,[]⟩ r ∧ Step r (.advance (caller (.writing 1 batch 1))) r' ∧ ¬ r'.Idle := by
  have ran : Ends (added.run MemoryEngine.Sample.backend) Db.fresh (fun _ s =>
      Ends (begin_populating ⟨space_name_for target,target,.Populating⟩) s fun _ s₁ =>
        Ends (begin_populating ⟨space_name_for target,target,.Populating⟩) s₁ fun _ s₂ =>
          Ends (write_backfill_batch (space_name_for target) batch) s₂ fun _ s₃ => Ends (promote_space (space_name_for target)) s₃ fun _ s₄ =>
            Ends (write_backfill_batch (space_name_for target) batch) s₄ fun _ s₅ =>
              Ends (next_backfill_window (space_name_for target) 0 DEFAULT_BACKFILL_BATCH) s₂ (fun window _ => decide (window = [(1,"a")])) &&
              Ends (next_backfill_window (space_name_for target) 1 DEFAULT_BACKFILL_BATCH) s₃ (fun window _ => decide (window = [])) &&
              Ends (next_backfill_window (space_name_for target) 0 DEFAULT_BACKFILL_BATCH) s₃ (fun window _ => decide (window = [])) &&
              decide (s₂.activeSpace.map EmbeddingSpace.name ≠ some (space_name_for target)) &&
              s₅.fact_vectors.any fun v => decide (s₅.activeSpace.map EmbeddingSpace.name = some v.space_id)) = true := by
    decide +kernel
  obtain ⟨_,s,first,ran⟩ := commits_of_ends ran
  obtain ⟨_,s₁,begun,ran⟩ := commits_of_ends ran
  obtain ⟨_,s₂,joined,ran⟩ := commits_of_ends ran
  obtain ⟨n,s₃,filled,ran⟩ := commits_of_ends ran
  obtain ⟨outcome,s₄,promoted,ran⟩ := commits_of_ends ran
  obtain ⟨n',s₅,late,ran⟩ := commits_of_ends ran
  simp only [Bool.and_eq_true,decide_eq_true_eq] at ran
  obtain ⟨⟨⟨⟨window,passed⟩,caught⟩,apart⟩,left⟩ := ran
  have starting (calls : List ReconstructCall) : Step ⟨s,calls⟩ (.start (caller .opening)) ⟨s,caller .opening :: calls⟩ := .start rfl
  -- the first call of the two, and the second
  have first_call {db db' : Db} {call call' : ReconstructCall} (other : ReconstructCall) (step : call.Step db db' call') :
      Step ⟨db,[call,other]⟩ (.advance call) ⟨db',[] ++ call' :: [other]⟩ := .advance rfl step
  have second_call {db db' : Db} {call call' : ReconstructCall} (other : ReconstructCall) (step : call.Step db db' call') :
      Step ⟨db,[other,call]⟩ (.advance call) ⟨db',[other] ++ call' :: []⟩ := .advance rfl step
  have reads : (caller (.reading 1 0)).Step s₂ s₂ (caller (.writing 1 batch 1)) := .read (fetched_of_ends window) rfl rfl
  have writes : (caller (.writing 1 batch 1)).Step s₂ s₃ (caller (.reading 1 1)) := .write filled
  have passes : (caller (.reading 1 1)).Step s₃ s₃ (caller (.reading 0 0)) := .filled (fetched_of_ends passed)
  have catches : (caller (.reading 0 0)).Step s₃ s₃ (caller .promoting) := .filled (fetched_of_ends caught)
  have promotes : (caller .promoting).Step s₃ s₄ (caller (.ended (some outcome))) := .promote promoted
  have overdue : (caller (.writing 1 batch 1)).Step s₄ s₅ (caller (.reading 1 1)) := .write late
  have closed : Open ⟨s₂,[caller (.writing 1 batch 1),caller (.writing 1 batch 1)]⟩ (.advance (caller (.writing 1 batch 1))) := by
    intro active serving same
    exact apart (by rw [serving]; exact congrArg some same)
  have on {r r' : ReconstructRace} {event : Event} (run : Run Open ⟨Db.fresh,[]⟩ r) (step : Step r event r') (may : r.Open event) :
      Run Open ⟨Db.fresh,[]⟩ r' := run.step may step
  have run := on (on (on .start (.port id first) trivial) (starting []) trivial) (starting [caller .opening]) trivial
  have run := on (on run (first_call _ (.begin_populating begun)) trivial) (second_call _ (.begin_populating joined)) trivial
  have run := on (on run (first_call _ reads) trivial) (second_call _ reads) trivial
  have run := on (on run (first_call _ writes) closed) (first_call _ passes) trivial
  have run := on (on run (first_call _ catches) trivial) (first_call _ promotes) trivial
  refine ⟨_,_,run,second_call _ overdue,fun idle => ?_⟩
  obtain ⟨v,member,named⟩ := List.any_eq_true.mp left
  obtain ⟨active,serving,same⟩ := Option.map_eq_some_iff.mp (of_decide_eq_true named)
  exact idle active serving v member same.symm

theorem vectors_rest_iff_sample : ∃ r r', Run Open ⟨Db.fresh,[]⟩ r ∧ Step r (.advance (caller (.writing 1 batch 1))) r' ∧ r.Idle ∧
    (r'.Idle ∧ r'.Retains ↔ r.Open (.advance (caller (.writing 1 batch 1)))) := by
  obtain ⟨r,r',run,step,_⟩ := late_batch
  obtain ⟨idle,_,next⟩ := vectors_rest_iff .fresh run
  exact ⟨r,r',run,step,idle,next r' _ step⟩

/-- A late batch leaves vectors in the space that serves. -/
theorem vectors_left_behind : ¬ ∀ (s : Db) (r : ReconstructRace), Life s → Run (fun _ _ => True) ⟨s,[]⟩ r → r.Idle ∧ r.Retains := by
  intro claim
  obtain ⟨r,r',run,step,left⟩ := late_batch
  exact left (claim Db.fresh r' .fresh (run.weaken.step trivial step)).1

end ReconstructRace
end MemoryEngine
