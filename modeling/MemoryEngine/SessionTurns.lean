import MemoryEngine.Types
import Mathlib.Data.List.Sort
import Mathlib.Data.List.Infix

/-! Turns of a session. The entries of a session log are paired into turns, by the links
between their uuids first and in sequence then, and turns with keywords in them become
candidate episodes. -/

namespace MemoryEngine.Session
open Time

/-- What turns take from linked libraries: how a timestamp is read, the time now, and the
    lower case of a text. -/
structure TurnLibraries where
  parse_timestamp : String → Option DateTime
  now : DateTime
  to_lowercase : String → String

/-! ## Entries -/

inductive EntryType where
  | Assistant
  | User
  | Progress
  | QueueOperation
  | FileHistorySnapshot
  | LastPrompt
  | Unknown
deriving DecidableEq

structure MessagePayload where
  content : Option Json

structure ToolUseResult where
  stdout : Option String
  stderr : Option String
  interrupted : Option Bool
  is_error : Option Bool

structure SessionEntry where
  entry_type : EntryType
  session_id : Option String
  timestamp : Option String
  uuid : Option String
  parent_uuid : Option String
  message : Option MessagePayload
  tool_use_result : Option ToolUseResult

inductive ContentBlock where
  | Text (text : String)
  | ToolUse (name : String) (input : Json)
  | ToolResult
  | Thinking (text : String)
  | Other

/-- A text field of an object, empty when it is missing or no text. -/
def textField (key : String) (obj : Json) : String :=
  match obj.fields.lookup key with
  | some (.str s) => s
  | _ => ""

def parse_single_block (obj : Json) : ContentBlock :=
  let block_type := textField "type" obj
  if block_type = "text" then .Text (textField "text" obj)
  else if block_type = "tool_use" then .ToolUse (textField "name" obj) ((obj.fields.lookup "input").getD .null)
  else if block_type = "tool_result" then .ToolResult
  else if block_type = "thinking" then .Thinking (textField "thinking" obj)
  else .Other

def parse_content_blocks : Json → List ContentBlock
  | .arr items => items.map parse_single_block
  | _ => []

/-! ## Turns -/

structure ToolCallRecord where
  tool_name : String
  input : Json
  stdout : Option String
  stderr : Option String
  is_error : Bool
  interrupted : Bool

structure ConversationTurn where
  timestamp : DateTime
  user_text : String
  assistant_text : String
  tool_calls : List ToolCallRecord
  uuid : String

/-- The blocks of an entry's message. -/
def SessionEntry.blocks (entry : SessionEntry) : List ContentBlock :=
  match entry.message.bind MessagePayload.content with
  | some content => parse_content_blocks content
  | none => []

def extract_text (entry : SessionEntry) : String :=
  "\n".intercalate (entry.blocks.filterMap fun block =>
    match block with
    | .Text t => some t
    | .Thinking t => some t
    | _ => none)

/-- The i-th result belongs to the i-th call. -/
def withResults : List ToolCallRecord → List SessionEntry → List ToolCallRecord
  | call :: calls,entry :: entries =>
    (match entry.tool_use_result with
      | some result => { call with
          stdout := result.stdout
          stderr := result.stderr
          is_error := result.is_error.getD false
          interrupted := result.interrupted.getD false }
      | none => call) :: withResults calls entries
  | calls,_ => calls

def extract_tool_calls (assistant : SessionEntry) (tool_result_entries : List SessionEntry) : List ToolCallRecord :=
  let calls := assistant.blocks.filterMap fun block =>
    match block with
    | .ToolUse name input => some ⟨name,input,none,none,false,false⟩
    | _ => none
  withResults calls tool_result_entries

section libraries
variable (libraries : TurnLibraries)

def build_turn (user assistant : SessionEntry) (tool_result_entries : List SessionEntry) : ConversationTurn where
  timestamp := ((user.timestamp.bind libraries.parse_timestamp).or (assistant.timestamp.bind libraries.parse_timestamp)).getD libraries.now
  user_text := extract_text user
  assistant_text := extract_text assistant
  tool_calls := extract_tool_calls assistant tool_result_entries
  uuid := user.uuid.getD ""

/-- Entries by the uuid of their parent. -/
abbrev ParentIndex := String → List SessionEntry

def ParentIndex.push (index : ParentIndex) (entry : SessionEntry) : ParentIndex :=
  match entry.parent_uuid with
  | some parent => if parent = "" then index else fun key => if key = parent then index key ++ [entry] else index key
  | none => index

def is_tool_result (e : SessionEntry) : Bool := e.tool_use_result.isSome

/-- The assistants and the tool results, each by parent. -/
def indices (relevant : List SessionEntry) : ParentIndex × ParentIndex :=
  relevant.foldl (fun index entry =>
    if entry.entry_type = .Assistant then (index.1.push entry,index.2)
    else if entry.entry_type = .User ∧ is_tool_result entry = true then (index.1,index.2.push entry)
    else index) (fun _ => [],fun _ => [])

def collect_tool_result_entries (tool_results_by_parent : ParentIndex) (assistant : SessionEntry) : List SessionEntry :=
  match assistant.uuid with
  | some assistant_uuid => tool_results_by_parent assistant_uuid
  | none => []

/-- What the two passes keep: the uuids that are in a turn, and the turns. -/
structure Pairing where
  used : List String
  turns : List ConversationTurn

/-- The assistant has a uuid, which is in no turn yet. -/
def Pairing.free (pairing : Pairing) (a : SessionEntry) : Bool := a.uuid.any fun u => !pairing.used.contains u

def Pairing.pair (pairing : Pairing) (tool_results_by_parent : ParentIndex) (user_uuid : String) (user assistant : SessionEntry) : Pairing :=
  let tool_results := collect_tool_result_entries tool_results_by_parent assistant
  ⟨pairing.used ++ user_uuid :: assistant.uuid.toList ++ tool_results.filterMap SessionEntry.uuid,
    pairing.turns ++ [build_turn libraries user assistant tool_results]⟩

def isPrompt (e : SessionEntry) : Bool := e.entry_type == .User && !is_tool_result e

/-- A prompt and the first free assistant whose parent it is. -/
def linked (index : ParentIndex × ParentIndex) (pairing : Pairing) (entry : SessionEntry) : Pairing :=
  match isPrompt entry,entry.uuid with
  | true,some user_uuid =>
    if pairing.used.contains user_uuid then pairing else
      match (index.1 user_uuid).find? pairing.free with
      | some assistant => pairing.pair libraries index.2 user_uuid entry assistant
      | none => pairing
  | _,_ => pairing

/-- A prompt that is in no turn and the next free assistant before another prompt. -/
def sequential (index : ParentIndex × ParentIndex) (pairing : Pairing) : List SessionEntry → Pairing
  | [] => pairing
  | entry :: rest =>
    let entry_uuid := entry.uuid.getD ""
    let pairing := if isPrompt entry && entry_uuid != "" && !pairing.used.contains entry_uuid then
        match (rest.takeWhile fun e => !isPrompt e).find? fun a => a.entry_type == .Assistant && pairing.free a with
        | some assistant => pairing.pair libraries index.2 entry_uuid entry assistant
        | none => pairing
      else pairing
    sequential index pairing rest

def reconstruct_turns (entries : List SessionEntry) : List ConversationTurn :=
  let relevant := entries.filter fun e => e.entry_type == .User || e.entry_type == .Assistant
  let index := indices relevant
  let paired := relevant.foldl (linked libraries index) ⟨[],[]⟩
  (sequential libraries index paired relevant).turns.insertionSort fun a b => a.timestamp ≤ b.timestamp

/-! ## Candidates -/

inductive EpisodeCategory where
  | Bug
  | Decision
  | Convention
  | Learning
deriving DecidableEq

structure CandidateEpisode where
  category : EpisodeCategory
  turns : List ConversationTurn
  matched_keywords : List String
  session_id : String
  timestamp : DateTime

def BUG_KEYWORDS : List String := ["root cause","fix","traceback","exception"]
def BUG_ERROR_KEYWORD : String := "error"
def DECISION_KEYWORDS : List String := ["switched from","chose","decided","went with"]
def CONVENTION_KEYWORDS : List String := ["always use","never use","rule","convention"]
def LEARNING_KEYWORDS : List String := ["discovered","til","turns out","reason is"]

def contains (haystack needle : String) : Bool := decide (needle.toList <:+: haystack.toList)

/-- The texts of the user, the assistant and the tools' errors, in lower case. -/
def build_searchable_text (turn : ConversationTurn) : String :=
  String.join ((turn.user_text :: turn.assistant_text :: turn.tool_calls.filterMap ToolCallRecord.stderr).map fun s => libraries.to_lowercase s ++ "\n")

def collect_stderr (turn : ConversationTurn) : String :=
  libraries.to_lowercase ("\n".intercalate (turn.tool_calls.filterMap ToolCallRecord.stderr))

def check_error_keyword (assistant_lower stderr_lower : String) : Bool :=
  contains stderr_lower BUG_ERROR_KEYWORD ||
    (contains assistant_lower BUG_ERROR_KEYWORD && ["fix","bug","issue"].any fun ctx => contains assistant_lower ctx)

def match_keywords (haystack : String) (table : List String) : List String := table.filter fun kw => contains haystack kw

/-- The keywords of each category that a turn matches. -/
def matches_of (turn : ConversationTurn) : List (EpisodeCategory × List String) :=
  let searchable := build_searchable_text libraries turn
  let error := check_error_keyword (libraries.to_lowercase turn.assistant_text) (collect_stderr libraries turn)
  [(.Bug,match_keywords searchable BUG_KEYWORDS ++ if error then [BUG_ERROR_KEYWORD] else []),
    (.Decision,match_keywords searchable DECISION_KEYWORDS),
    (.Convention,match_keywords searchable CONVENTION_KEYWORDS),
    (.Learning,match_keywords searchable LEARNING_KEYWORDS)]

def keyword_prefilter (turns : List ConversationTurn) (session_id : String) : List CandidateEpisode :=
  turns.flatMap fun turn => (matches_of libraries turn).filterMap fun found =>
    if found.2.isEmpty then none else some ⟨found.1,[turn],found.2,session_id,turn.timestamp⟩

end libraries

/-- A candidate is one turn of the session with keywords of the tables. -/
theorem keyword_prefilter_turns {libraries : TurnLibraries} {turns : List ConversationTurn} {session_id : String} {c : CandidateEpisode}
    (found : c ∈ keyword_prefilter libraries turns session_id) : c.session_id = session_id ∧ (∃ turn ∈ turns, c.turns = [turn]) ∧
      ∀ kw ∈ c.matched_keywords, kw ∈ BUG_KEYWORDS ++ BUG_ERROR_KEYWORD :: DECISION_KEYWORDS ++ CONVENTION_KEYWORDS ++ LEARNING_KEYWORDS := by
  obtain ⟨turn,member,inside⟩ := List.mem_flatMap.mp found
  obtain ⟨⟨category,keywords⟩,listed,made⟩ := List.mem_filterMap.mp inside
  by_cases none_ : keywords.isEmpty = true
  · rw [if_pos none_] at made
    cases made
  · rw [if_neg none_] at made
    cases made
    refine ⟨rfl,⟨turn,member,rfl⟩,fun kw present => ?_⟩
    simp only [List.mem_append,List.mem_cons]
    simp only [matches_of,List.mem_cons,List.not_mem_nil,or_false,Prod.mk.injEq] at listed
    rcases listed with ⟨_,rfl⟩ | ⟨_,rfl⟩ | ⟨_,rfl⟩ | ⟨_,rfl⟩
    · rcases List.mem_append.mp present with table | error
      · exact Or.inl (Or.inl (Or.inl (List.mem_of_mem_filter table)))
      · split at error
        · exact Or.inl (Or.inl (Or.inr (Or.inl (List.mem_singleton.mp error))))
        · cases error
    · exact Or.inl (Or.inl (Or.inr (Or.inr (List.mem_of_mem_filter present))))
    · exact Or.inl (Or.inr (List.mem_of_mem_filter present))
    · exact Or.inr (List.mem_of_mem_filter present)

end MemoryEngine.Session
