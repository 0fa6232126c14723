import MemoryEngine.Bootstrap
import MemoryEngine.RedactClean
import MemoryEngine.SessionTurns
import MemoryEngine.Traces

/-! How the bootstrap importers prepare facts. A session log is reconstructed, redacted,
filtered, extracted and embedded; a memory file is redacted and embedded. The consumer's
extractor, embedder and classifier are called on the way, and a run keeps what it hands
to them. -/

namespace MemoryEngine.Importer
open Time Traces Traced Session Redact

/-! ## Redaction of strings -/

/-- Redaction counts its findings, and may panic. -/
abbrev Scrub := StateT Nat Option

section redaction
variable (libraries : RedactLibraries) (denylist : List String)

/-- The redacted string, with its findings counted. -/
def redact_content (s : String) : Scrub String := do
  let (clean,findings) ← redact_text_with_denylist libraries s.toList (denylist.map String.toList)
  modify (· + findings.length)
  return String.ofList clean

/-- The string is replaced when there is a finding. -/
def redact_field (s : String) : Scrub String := do
  let (clean,findings) ← redact_text_with_denylist libraries s.toList (denylist.map String.toList)
  modify (· + findings.length)
  return if findings.isEmpty then s else String.ofList clean

mutual
/-- Every string of a document but for the keys of objects. -/
def redact_json_strings : Json → Scrub Json
  | .str s => do return .str (← redact_field libraries denylist s)
  | .arr items => do return .arr (← redact_items items)
  | .obj fields => do return .obj (← redact_values fields)
  | .null => return .null
  | .bool b => return .bool b
  | .int i => return .int i
  | .float x => return .float x
def redact_items : List Json → Scrub (List Json)
  | [] => return []
  | item :: rest => do
    let clean ← redact_json_strings item
    return clean :: (← redact_items rest)
def redact_values : List (String × Json) → Scrub (List (String × Json))
  | [] => return []
  | (k,v) :: rest => do
    let clean ← redact_json_strings v
    return (k,clean) :: (← redact_values rest)
end

def redact_optional : Option String → Scrub (Option String)
  | some s => do return some (← redact_field libraries denylist s)
  | none => return none

def redact_tool_call (tc : ToolCallRecord) : Scrub ToolCallRecord := do
  let input ← redact_json_strings libraries denylist tc.input
  let stdout ← redact_optional libraries denylist tc.stdout
  let stderr ← redact_optional libraries denylist tc.stderr
  return { tc with input := input, stdout := stdout, stderr := stderr }

def redact_turn (turn : ConversationTurn) : Scrub ConversationTurn := do
  let user_text ← redact_field libraries denylist turn.user_text
  let assistant_text ← redact_field libraries denylist turn.assistant_text
  let tool_calls ← turn.tool_calls.mapM (redact_tool_call libraries denylist)
  return { turn with user_text := user_text, assistant_text := assistant_text, tool_calls := tool_calls }

def redact_turns (turns : List ConversationTurn) : Scrub (List ConversationTurn) := turns.mapM (redact_turn libraries denylist)

end redaction

/-! ## Runs -/

inductive SessionOutcome where
  | Success
  | Failure
  | Indeterminate
deriving DecidableEq

structure ExtractedFact where
  content : String
  fact_type : FactType
  importance : F64
  category : EpisodeCategory
  metadata : Json

/-- What is handed to the consumer. -/
inductive Passed where
  | extract (episode : CandidateEpisode) (outcome : SessionOutcome)
  | embed (content : String)
  | should_pin (input : ClassifierInput)

/-- The extractor, the embedder and the classifier of the consumer. Each may remember all
    calls before. -/
structure Callbacks where
  extract : List Passed → CandidateEpisode → SessionOutcome → Except MemoryError (List ExtractedFact)
  embed : List Passed → String → Except MemoryError Embedding
  should_pin : Option (List Passed → ClassifierInput → Bool)

inductive Failure where
  | panicked
  | failed (e : MemoryError)

abbrev Preparing := Traced Passed Failure

/-- Redaction within a run, with the count of findings. -/
def scrubbed {α : Type} (scrub : Scrub α) : Preparing (α × Nat) :=
  match scrub.run 0 with
  | some clean => pure clean
  | none => fail .panicked

namespace Callbacks
variable (callbacks : Callbacks)

def callExtract (episode : CandidateEpisode) (outcome : SessionOutcome) : Preparing (List ExtractedFact) :=
  pass (.extract episode outcome) fun log => (callbacks.extract log episode outcome).mapError .failed

def callEmbed (content : String) : Preparing Embedding :=
  pass (.embed content) fun log => (callbacks.embed log content).mapError .failed

/-- Without a classifier nothing is pinned. -/
def callShouldPin (input : ClassifierInput) : Preparing Bool :=
  match callbacks.should_pin with
  | some should_pin => pass (.should_pin input) fun log => .ok (should_pin log input)
  | none => pure false

end Callbacks

/-! ## Sessions -/

structure BootstrapConfig where
  max_turns : Nat
  redact : Bool
  denylist : List String

/-- What the importers take from libraries and from the outcome heuristics. -/
structure PrepareLibraries where
  redaction : RedactLibraries
  turns : TurnLibraries
  float_text : SqlReal → String
  classify_outcome : List ConversationTurn → SessionOutcome

structure OutcomeCounts where
  success : Nat
  failure : Nat
  indeterminate : Nat

structure CategoryCounts where
  bug : Nat
  decision : Nat
  convention : Nat
  learning : Nat

/-- The tallies that are known when a session is prepared. -/
structure BootstrapReport where
  turns_reconstructed : Nat
  candidates_found : Nat
  secrets_redacted : Nat
  events_ingested : Nat
  outcome_counts : OutcomeCounts
  category_counts : CategoryCounts

structure ParsedSession where
  entries : List SessionEntry
  malformed : Nat
  session_id : String

structure PreparedSession where
  marker : NewEvent
  facts : List (NewFact × Nat)
  report : BootstrapReport

structure PrepareCtx where
  libraries : PrepareLibraries
  callbacks : Callbacks
  config : BootstrapConfig
  scope_id : Int

namespace PrepareCtx
variable (ctx : PrepareCtx)

/-- The content of a fact as it is stored. -/
def cleanContent (content : String) : Preparing (String × Nat) :=
  if ctx.config.redact = true then scrubbed (redact_content ctx.libraries.redaction ctx.config.denylist content) else pure (content,0)

def cleanMetadata (metadata : Json) : Preparing (Json × Nat) :=
  if ctx.config.redact = true then scrubbed (redact_json_strings ctx.libraries.redaction ctx.config.denylist metadata) else pure (metadata,0)

end PrepareCtx

open PrepareCtx

/-- The anchor of a session that is imported. -/
def marker (ctx : PrepareCtx) (parsed : ParsedSession) : NewEvent where
  timestamp := ctx.libraries.turns.now
  event_type := .SystemEvent
  payload := Json.object [("action",.str "bootstrap_session"),("session_id",.str parsed.session_id)]
  source := "bootstrap"
  session_id := some parsed.session_id
  scope_id := ctx.scope_id
  origin_node_id := "bootstrap"
  sequence_id := 0
  created_at := none

section session
variable (ctx : PrepareCtx)

/-- A fact that is too large after redaction is skipped. -/
def prepare_extracted_fact (fact : ExtractedFact) (effective_created : DateTime) : Preparing (Option (NewFact × Nat)) := do
  let (content,found) ← ctx.cleanContent fact.content
  let (metadata,found_in_metadata) ← ctx.cleanMetadata fact.metadata
  match check_str_size content "fact content",check_json_size ctx.libraries.float_text metadata "fact metadata" with
  | .ok _,.ok _ => do
    let embedding ← ctx.callbacks.callEmbed content
    let is_pinned ← ctx.callbacks.callShouldPin ⟨content,fact.fact_type,fact.importance,metadata⟩
    let prepared : PreparedFact := ⟨content,embedding,fact.fact_type,effective_created,fact.importance,metadata,ctx.scope_id,is_pinned⟩
    return some (prepared.newFact,found + found_in_metadata)
  | _,_ => return none

/-- The turns as the extractor sees them. -/
def cleanTurns (turns : List ConversationTurn) : Preparing (List ConversationTurn × Nat) :=
  if ctx.config.redact = true then scrubbed (redact_turns ctx.libraries.redaction ctx.config.denylist turns) else pure (turns,0)

/-- The last turns are kept. -/
def truncated (turns : List ConversationTurn) : List ConversationTurn :=
  if 0 < ctx.config.max_turns ∧ ctx.config.max_turns < turns.length then turns.drop (turns.length - ctx.config.max_turns) else turns

/-- The facts of one candidate. -/
def prepare_candidate (outcome : SessionOutcome) (facts : List (NewFact × Nat)) (candidate : CandidateEpisode) :
    Preparing (List (NewFact × Nat)) := do
  let extracted ← ctx.callbacks.callExtract candidate outcome
  extracted.foldlM (fun facts fact => do return facts ++ (← prepare_extracted_fact ctx fact candidate.timestamp).toList) facts

def outcomeCounts : SessionOutcome → OutcomeCounts
  | .Success => ⟨1,0,0⟩
  | .Failure => ⟨0,1,0⟩
  | .Indeterminate => ⟨0,0,1⟩

def categoryCounts (candidates : List CandidateEpisode) : CategoryCounts :=
  let count := fun category => candidates.countP fun c => c.category = category
  ⟨count .Bug,count .Decision,count .Convention,count .Learning⟩

def prepare_session (parsed : ParsedSession) : Preparing PreparedSession := do
  let raw := reconstruct_turns ctx.libraries.turns parsed.entries
  let (turns,secrets_redacted) ← cleanTurns ctx raw
  let outcome := ctx.libraries.classify_outcome turns
  let candidates := keyword_prefilter ctx.libraries.turns (truncated ctx turns) parsed.session_id
  let facts ← candidates.foldlM (prepare_candidate ctx outcome) []
  return ⟨marker ctx parsed,facts,raw.length,candidates.length,secrets_redacted,1,outcomeCounts outcome,categoryCounts candidates⟩

end session

/-! ## Memory files -/

def MEMORY_IMPORTANCE : F64 := F64.ofRat (3 / 5)

structure ParsedMemory where
  name : Option String
  description : Option String
  mem_type : Option String
  frontmatter_date : Option DateTime
  body : String

/-- A file as it was found: its name, and the times that its name and the file system give. -/
structure MemoryFile where
  file_name : String
  filename_date : Option DateTime
  mtime : Option DateTime
  parsed : ParsedMemory

def classify_memory_type (mem_type : Option String) : FactType × Bool :=
  if mem_type = some "feedback" then (.Procedural,false)
  else if mem_type = some "project" then (.Episodic,false)
  else if mem_type = some "reference" then (.Semantic,true)
  else (.Semantic,false)

def build_metadata (file_name : String) (parsed : ParsedMemory) (route_kb : Bool) : Json :=
  let given := fun (key : String) (value : Option String) => (value.map fun s => (key,Json.str s)).toList
  Json.object ([("source",.str "memory-dir"),("file",.str file_name)] ++ given "name" parsed.name ++ given "description" parsed.description ++
    given "memory_type" parsed.mem_type ++ given "route" (if route_kb then some "knowledge-base" else none))

def prepare_one_memory (ctx : PrepareCtx) (file : MemoryFile) : Preparing (NewFact × Nat) := do
  let timestamp := ((file.parsed.frontmatter_date.or file.filename_date).or file.mtime).getD ctx.libraries.turns.now
  let (content,found) ← ctx.cleanContent file.parsed.body
  let (fact_type,route_kb) := classify_memory_type file.parsed.mem_type
  let embedding ← ctx.callbacks.callEmbed content
  let (metadata,found_in_metadata) ← ctx.cleanMetadata (build_metadata file.file_name file.parsed route_kb)
  let is_pinned ← ctx.callbacks.callShouldPin ⟨content,fact_type,MEMORY_IMPORTANCE,metadata⟩
  let prepared : PreparedFact := ⟨content,embedding,fact_type,timestamp,MEMORY_IMPORTANCE,metadata,ctx.scope_id,is_pinned⟩
  return (prepared.newFact,found + found_in_metadata)

/-- A file without a body carries no fact. -/
def prepare_memory_file (ctx : PrepareCtx) (file : MemoryFile) : Preparing (Option (NewFact × Nat)) :=
  if file.parsed.body = "" then return none else do return some (← prepare_one_memory ctx file)

end MemoryEngine.Importer
