import MemoryEngine.Floats
import MemoryEngine.Ranking
import MemoryEngine.Ingest

/-! The activity stream. A tool call is dropped, recorded or folded into a recent
equal one; a call that the consumer's patterns promote becomes a fact as well, and
its row then names the fact. -/

namespace MemoryEngine
open Time KeyedTable Transaction Ranking

namespace OutcomeClass

def as_str : OutcomeClass → String
  | .Success => "success"
  | .Error => "error"
  | .TestFailure => "test_failure"
  | .Other s => s

end OutcomeClass

structure NewActivity where
  session_id : String
  tool_name : String
  args_hash : String
  args : Json
  result_summary : Option String
  outcome_class : OutcomeClass
  timestamp : DateTime
  scope_id : Int

structure RecordActivityRequest where
  tool_name : String
  args : Json
  result : Option String
  session_id : String
  timestamp : DateTime
  scope_path : Option String
  outcome_class : Option OutcomeClass

structure RecordActivityResult where
  activity_id : Option Int
  was_deduplicated : Bool
  promoted_fact_id : Option FactId
  status : ActivityStatus

/-- The rules of the consumer. The patterns are lower case. -/
structure ActivityFilterConfig where
  dedup_window_secs : Int := 300
  ignore_patterns : List String := []
  promote_patterns : List String := []

structure PromoteAction where
  fact_content : String
  fact_type : FactType
  importance : F64

inductive ActivityFilterDecision where
  | Ignore
  | Record
  | Promote (action : PromoteAction)

/-- What the stream takes from linked libraries: the lower case of a text, the text
    of a document, whether SQLite finds an instant less than a number of seconds
    after another, and the order of rows it leaves open. -/
structure ActivityLibraries where
  to_lowercase : String → String
  to_string : Json → String
  within : DateTime → DateTime → Int → Bool
  rows : Shuffle Activity

/-- The characters that fit into a number of bytes. -/
def takeBytes : Nat → List Char → List Char
  | _,[] => []
  | n,c :: rest => if c.utf8Size ≤ n then c :: takeBytes (n - c.utf8Size) rest else []

def truncate (s : String) (max_len : Nat) : String := String.ofList (takeBytes max_len s.toList)

namespace Activities
variable (libraries : ActivityLibraries)

def filterConfig (dedup_window_secs : Int) (ignore_patterns promote_patterns : List String) : ActivityFilterConfig :=
  ⟨dedup_window_secs,ignore_patterns.map libraries.to_lowercase,promote_patterns.map libraries.to_lowercase⟩

def format_promote_content (tool_name : String) (result : Option String) : String :=
  match result with
  | some r => if r ≠ "" then "[" ++ tool_name ++ "] " ++ truncate r 200 else "[" ++ tool_name ++ "] (no result summary)"
  | none => "[" ++ tool_name ++ "] (no result summary)"

/-- Ignore patterns come first. -/
def apply_filter (tool_name : String) (result : Option String) (config : ActivityFilterConfig) : ActivityFilterDecision :=
  let tool_lower := (libraries.to_lowercase tool_name).toList
  if config.ignore_patterns.any (fun pattern => decide (pattern.toList <:+: tool_lower)) then .Ignore else
  if config.promote_patterns.any (fun pattern => decide (pattern.toList <:+: tool_lower))
  then .Promote ⟨format_promote_content tool_name result,.Episodic,F64.ofDatum (binary64.round (7 / 10))⟩ else .Record

end Activities

namespace ActivityStore

/-- The row counts a further call of the same kind. -/
def repeats (activity : NewActivity) (a : Activity) : Bool :=
  a.session_id == activity.session_id && a.tool_name == activity.tool_name && a.args_hash == activity.args_hash &&
    a.outcome_class.as_str == activity.outcome_class.as_str && a.scope_id == activity.scope_id && a.status != .Ignored

def newRow (activity : NewActivity) (id : Int) : Activity where
  id := id
  session_id := activity.session_id
  tool_name := activity.tool_name
  args_hash := activity.args_hash
  args := activity.args
  result_summary := activity.result_summary
  outcome_class := activity.outcome_class
  status := .Recorded
  occurrence_count := 1
  first_seen := activity.timestamp
  last_seen := activity.timestamp
  scope_id := activity.scope_id
  promoted_fact_id := none

theorem newRow_key (activity : NewActivity) (id : Int) : Row.key (newRow activity id) = id := rfl

/-- Another call of a row seen before; a promoted row stays promoted. -/
def again (activity : NewActivity) (count : Int) (a : Activity) : Activity :=
  { a with
    occurrence_count := count + 1
    last_seen := activity.timestamp
    status := if a.status = .Promoted then .Promoted else .Deduplicated
    result_summary := activity.result_summary <|> a.result_summary }

theorem again_key (activity : NewActivity) (count : Int) (a : Activity) : Row.key (again activity count a) = Row.key a := rfl

/-- The latest row of the same kind within the window. -/
def existing (libraries : ActivityLibraries) (activity : NewActivity) (dedup_window_secs : Int) : Sql (Option Activity) :=
  query fun t => (descending (fun a : Activity => a.last_seen.to_rfc3339) ((libraries.rows.order t.activities.rows).filter fun a =>
    repeats activity a && libraries.within activity.timestamp a.last_seen dedup_window_secs)).head?

def insert_or_dedup (libraries : ActivityLibraries) (activity : NewActivity) (dedup_window_secs : Int) : Sql (Int × Bool) := do
  match ← existing libraries activity dedup_window_secs with
  | some old => do
    execute fun t => { t with
      activities := t.activities.update (fun a => a.id == old.id) (again activity old.occurrence_count) (again_key activity old.occurrence_count) }
    return (old.id,true)
  | none => do
    let id ← query (·.activities.nextId)
    execute fun t => { t with activities := t.activities.insert (newRow activity) (newRow_key activity) }
    return (id,false)

/-- The row with its new status, linked to a fact or to none. -/
def linked (status : ActivityStatus) (promoted_fact_id : Option FactId) (a : Activity) : Activity :=
  { a with status := status, promoted_fact_id := promoted_fact_id }

theorem linked_key (status : ActivityStatus) (promoted_fact_id : Option FactId) (a : Activity) :
    Row.key (linked status promoted_fact_id a) = Row.key a := rfl

def update_status (id : Int) (status : ActivityStatus) (promoted_fact_id : Option FactId) : Sql Unit := do
  let found ← query fun t => decide (t.activities.Has id)
  execute fun t => { t with
    activities := t.activities.update (fun a => a.id == id) (linked status promoted_fact_id) (linked_key status promoted_fact_id) }
  require (found = true) (.NotFound s!"activity {id}")

end ActivityStore

namespace Activities

def args_hash (self : SqliteBackend) (libraries : ActivityLibraries) (args : Json) : String := self.content_hash (libraries.to_string args)

/-- The root scope, or the scope of a path. -/
def scopeOf (ctx : MemoryCtx) : Option String → Op Int
  | some path => ensure_scope_path ctx path
  | none => return 1

def newActivity (self : SqliteBackend) (libraries : ActivityLibraries) (req : RecordActivityRequest) (scope_id : Int) : NewActivity where
  session_id := req.session_id
  tool_name := req.tool_name
  args_hash := args_hash self libraries req.args
  args := req.args
  result_summary := req.result.map fun r => truncate r 512
  outcome_class := req.outcome_class.getD .Success
  timestamp := req.timestamp
  scope_id := scope_id

def factRequest (req : RecordActivityRequest) (action : PromoteAction) : AddFactRequest where
  content := action.fact_content
  fact_type := action.fact_type
  source_event_id := none
  scope := req.scope_path
  opts := some { base_importance := some action.importance }

/-- Add the fact and link the row to it. A fact that fails leaves the row recorded. -/
def promoteActivity (ctx : MemoryCtx) (req : RecordActivityRequest) (action : PromoteAction) (embedder : EmbeddingProvider)
    (activity_id : Int) (now : DateTime) : Op (Option FactId × ActivityStatus) := do
  match ← attempt (add_fact ctx (factRequest req action) embedder none now) with
  | .ok fact_id => do
    port (ActivityStore.update_status activity_id .Promoted (some fact_id))
    return (some fact_id,.Promoted)
  | .error _ => return (none,.Recorded)

/-- What becomes of a stored call. Only a new one is promoted. -/
def settle (ctx : MemoryCtx) (req : RecordActivityRequest) (decision : ActivityFilterDecision) (embedder : Option EmbeddingProvider)
    (activity_id : Int) (was_deduplicated : Bool) (now : DateTime) : Op (Option FactId × ActivityStatus) :=
  if was_deduplicated then return (none,.Deduplicated) else
  match decision,embedder with
  | .Promote action,some emb => promoteActivity ctx req action emb activity_id now
  | _,_ => return (none,.Recorded)

end Activities

open Activities

def record_activity (ctx : MemoryCtx) (libraries : ActivityLibraries) (req : RecordActivityRequest) (embedder : Option EmbeddingProvider)
    (filter_config : ActivityFilterConfig) (now : DateTime) : Op RecordActivityResult := do
  ctx.ensure_writable
  match apply_filter libraries req.tool_name req.result filter_config with
  | .Ignore => return ⟨none,false,none,.Ignored⟩
  | decision => do
    let scope_id ← scopeOf ctx req.scope_path
    let (activity_id,was_deduplicated) ← port (ActivityStore.insert_or_dedup libraries (newActivity ctx.backend libraries req scope_id)
      filter_config.dedup_window_secs)
    let (promoted_fact_id,status) ← settle ctx req decision embedder activity_id was_deduplicated now
    return ⟨some activity_id,was_deduplicated,promoted_fact_id,status⟩

end MemoryEngine
