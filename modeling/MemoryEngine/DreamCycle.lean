import MemoryEngine.Query
import MemoryEngine.Cycle

/-! Running a dream cycle: the context it reads, the facts it selects, and the gate
that defers it while callers write. A cycle proposes a report and writes nothing. -/

namespace MemoryEngine
open Time KeyedTable Transaction Ranking

structure OutcomeCounts where
  positive : Nat := 0
  negative : Nat := 0
  neutral : Nat := 0
deriving DecidableEq

/-- The value of a top-level key. -/
def Json.lookup (key : String) (j : Json) : Option Json := j.fields.lookup key

namespace FactStore
variable (self : SqliteBackend)

def list_pinned (rows : Shuffle Fact) (scope_ids : List Int) (limit : Nat) : Sql (List Fact) := do
  let listed ← query fun t =>
    let pinned := (rows.order t.facts.rows).filter fun f => f.t_expired.isNone && f.is_pinned && inScopes scope_ids f
    (descending Fact.importance_score pinned).take (limit_i64 limit)
  rows_to_facts self.embed_dim listed

/-- The rows that the selection of a cycle finds. -/
def undreamtRows (start stop : DateTime) (scope_ids : List Int) (fact_type : Option FactType) (t : Tables) : List Fact :=
  descending (fun f => toLex (f.importance_score,OrderDual.toDual f.id)) (t.facts.rows.filter fun f =>
    f.t_expired.isNone && overlapsByText start stop f && inScopes scope_ids f && fact_type.all (fun ft => f.fact_type == ft) &&
      !f.metadata.hasKey "dream_cycle")

/-- Active facts of a period that no cycle has marked. -/
def list_undreamt_in_period (start stop : DateTime) (scope_ids : List Int) (fact_type : Option FactType) : Sql (List Fact) := do
  let listed ← query (undreamtRows start stop scope_ids fact_type)
  rows_to_facts self.embed_dim listed

end FactStore

namespace EventStore

/-- An integer as SQLite extracts it from a document; a float is no integer. -/
def extractInt : Json → Option Int
  | .int i => some i
  | .bool b => some (if b then 1 else 0)
  | _ => none

/-- The number a document stands for in a comparison. -/
def extractNumber : Json → Option SqlReal
  | .int i => some (((i : ℚ) : WithTop ℚ) : SqlReal)
  | .bool b => some (((if b then 1 else 0 : ℚ) : WithTop ℚ) : SqlReal)
  | .float x => some x
  | _ => none

/-- The event signals an outcome of one of the facts. -/
def signals (fact_ids : List FactId) (e : Event) : Bool :=
  e.event_type == .OutcomeSignal && ((e.payload.lookup "fact_id").bind extractNumber).any fun x =>
    fact_ids.any fun id => x == (((id : ℚ) : WithTop ℚ) : SqlReal)

/-- The columns of a signal as the statement reads them. -/
def readSignal (e : Event) : Except MemoryError (FactId × String) :=
  match (e.payload.lookup "fact_id").bind extractInt,e.payload.lookup "outcome" with
  | some fid,some (.str outcome) => .ok (fid,outcome)
  | _,_ => .error (.Storage "Invalid column type at index: 0")

/-- The signals of one fact by kind. -/
def tally (rows : List (FactId × String)) (fid : FactId) : OutcomeCounts where
  positive := rows.count (fid,"Positive")
  negative := rows.count (fid,"Negative")
  neutral := rows.count (fid,"Neutral")

/-- Outcome counts of the facts that have signals. -/
def count_outcome_signals_batch (fact_ids : List FactId) : Sql (FactId → Option OutcomeCounts) :=
  if fact_ids = [] then return fun _ => none
  else do
    let listed ← query fun t => t.events.rows.filter (signals fact_ids)
    let rows ← (listed.mapM readSignal : Except MemoryError (List (FactId × String)))
    require (∀ row ∈ rows, rows.count row ≤ U32_MAX) (.Storage "Integer out of range at index 2")
    return fun fid => if fid ∈ rows.map Prod.fst then some (tally rows fid) else none

end EventStore

/-- The event of one outcome. -/
def outcomeSignal (fact_id : FactId) (outcome : Outcome) (now : DateTime) : NewEvent where
  timestamp := now
  event_type := .OutcomeSignal
  payload := Json.object [("fact_id",.int fact_id),("outcome",.str outcome.name)]
  source := "outcome_tracking"
  session_id := none
  scope_id := 1
  origin_node_id := "local"
  sequence_id := 0
  created_at := none

def record_outcome (ctx : MemoryCtx) (fact_id : FactId) (outcome : Outcome) (now : DateTime) : Op Int := do
  ctx.ensure_writable
  let _ ← port (FactStore.get ctx.backend fact_id)
  port (EventStore.insert ctx.backend (outcomeSignal fact_id outcome now))

/-- What a cycle reads before it reflects. -/
structure CycleContext where
  prior_wisdom : List Fact
  prior_reports : List CycleMetadata
  time_window : TimeWindow

inductive SkipReason where
  | CallerWroteFacts (since_fact_id new_max_fact_id : FactId)

inductive CycleOutcome where
  | Ran (report : CycleReport)
  | Skipped (reason : SkipReason)

/-- A cycle proposes a report. -/
structure DreamCycle where
  run : CycleContext → Op CycleReport

/-- What the runner takes from linked libraries: the reader of instants, the serializer
    of the history, and the row order that SQLite leaves open. -/
structure CycleLibraries where
  parse_from_rfc3339 : String → Except String DateTime
  history : HistoryCodec
  rows : Shuffle Fact

def CALLER_WRITE_CURSOR : String := "last_caller_write_fact_id"

/-- Read the digits of a 64-bit integer, up to the first one that does not fit. -/
def parseDigits (negative : Bool) : Int → List Char → Except String Int
  | value,[] => .ok value
  | value,c :: rest =>
    if c.isDigit then
      let next := if negative then value * 10 - (c.toNat - 48 : Nat) else value * 10 + (c.toNat - 48 : Nat)
      if next < -2 ^ 63 then .error "number too small to fit in target type" else
      if 2 ^ 63 ≤ next then .error "number too large to fit in target type" else parseDigits negative next rest
    else .error "invalid digit found in string"

def parseI64 (text : String) : Except String Int :=
  match text.toList with
  | [] => .error "cannot parse integer from empty string"
  | ['+'] => .error "invalid digit found in string"
  | ['-'] => .error "invalid digit found in string"
  | '+' :: digits => parseDigits false 0 digits
  | '-' :: digits => parseDigits true 0 digits
  | digits => parseDigits false 0 digits

def parse_caller_write_cursor : Option String → Except MemoryError Int
  | none => .ok 0
  | some s =>
    match parseI64 s with
    | .ok cursor => .ok cursor
    | .error e => .error (.Migration s!"invalid {CALLER_WRITE_CURSOR}: {e}")

section runner
variable (ctx : MemoryCtx) (libraries : CycleLibraries)

/-- Where the default window starts. -/
def windowStart : Option String → Except MemoryError DateTime
  | none => .ok UNIX_EPOCH
  | some s =>
    match libraries.parse_from_rfc3339 s with
    | .ok start => .ok start
    | .error e => .error (.Migration s!"invalid last_dream_cycle_at: {e}")

def priorReports : Option String → Except MemoryError (List CycleMetadata)
  | none => .ok []
  | some s => libraries.history.from_str s

def build_cycle_context (now : DateTime) : Op CycleContext := do
  let prior_wisdom ← port (FactStore.list_pinned ctx.backend libraries.rows [] USIZE_MAX)
  let start ← windowStart libraries (← port (Config.get_config LAST_DREAM_CYCLE_AT))
  let prior_reports ← priorReports libraries (← port (Config.get_config DREAM_CYCLE_HISTORY))
  return ⟨prior_wisdom,prior_reports,⟨start,now⟩⟩

def run_dream_cycle (cycle : DreamCycle) (now : DateTime) : Op CycleReport := do
  ctx.ensure_open
  ctx.ensure_writable
  let cycle_ctx ← build_cycle_context ctx libraries now
  cycle.run cycle_ctx

/-- Whether callers wrote since the cursor; then the cursor moves. -/
def stand_down (cursor : Int) : Option FactId → Op (Option SkipReason)
  | none => return none
  | some max_id =>
    if max_id > cursor then do
      port (Config.set_config CALLER_WRITE_CURSOR (toString max_id))
      return some (.CallerWroteFacts cursor max_id)
    else return none

/-- A report that selected facts and processed none would leave them unmarked. -/
def malformed (report : CycleReport) : Prop := report.metadata.facts_selected > 0 ∧ report.metadata.processed_ids = []

instance (report : CycleReport) : Decidable (malformed report) := inferInstanceAs (Decidable (_ ∧ _))

def run_dream_cycle_guarded (cycle : DreamCycle) (now : DateTime) : Op CycleOutcome := do
  ctx.ensure_open
  ctx.ensure_writable
  let cursor ← parse_caller_write_cursor (← port (Config.get_config CALLER_WRITE_CURSOR))
  let max ← port FactStore.max_caller_written_fact_id
  match ← stand_down cursor max with
  | some reason => return .Skipped reason
  | none => do
    let report ← run_dream_cycle ctx libraries cycle now
    if malformed report then throw (.Cycle (.MalformedReport report.metadata.facts_selected))
    else return .Ran report

end runner

end MemoryEngine
