import MemoryEngine.BootstrapPrepare

/-! What leaves the importers. Each text that the extractor, the embedder or the classifier
receives, and each text of a fact that is stored, is the redaction of one text of the
input; keys of objects, names of tools, uuids and session ids are handed on as they are. -/

namespace MemoryEngine.Importer
open ByteText (Text)
open Time Traces Traced Session Redact

variable {libraries : RedactLibraries} {denylist : List String}

/-! ## Redacted strings -/

/-- Free of the literals of the denylist, but for genuine placeholders. -/
def Clean (denylist : List String) (s : String) : Prop := ∀ literal a, ¬ Exposed s.toList (denylist.map String.toList) literal a

/-- One string is the redaction of another, and clean if that was regular. -/
structure Scrubs (libraries : RedactLibraries) (denylist : List String) (raw out : String) : Prop where
  redacted : ∃ findings, redact_text_with_denylist libraries raw.toList (denylist.map String.toList) = some (out.toList,findings)
  clean : Regular raw.toList (denylist.map String.toList) → Clean denylist out

mutual
/-- The strings of a document are redacted, and all else is as it was. -/
inductive JsonScrubs (libraries : RedactLibraries) (denylist : List String) : Json → Json → Prop where
  | null : JsonScrubs libraries denylist .null .null
  | bool (b : Bool) : JsonScrubs libraries denylist (.bool b) (.bool b)
  | int (i : Int) : JsonScrubs libraries denylist (.int i) (.int i)
  | float (x : SqlReal) : JsonScrubs libraries denylist (.float x) (.float x)
  | str {raw out : String} (scrubs : Scrubs libraries denylist raw out) : JsonScrubs libraries denylist (.str raw) (.str out)
  | arr {raw out : List Json} (items : ItemsScrub libraries denylist raw out) : JsonScrubs libraries denylist (.arr raw) (.arr out)
  | obj {raw out : List (String × Json)} (values : ValuesScrub libraries denylist raw out) : JsonScrubs libraries denylist (.obj raw) (.obj out)
inductive ItemsScrub (libraries : RedactLibraries) (denylist : List String) : List Json → List Json → Prop where
  | nil : ItemsScrub libraries denylist [] []
  | cons {x y : Json} {xs ys : List Json} (first : JsonScrubs libraries denylist x y) (rest : ItemsScrub libraries denylist xs ys) :
      ItemsScrub libraries denylist (x :: xs) (y :: ys)
inductive ValuesScrub (libraries : RedactLibraries) (denylist : List String) : List (String × Json) → List (String × Json) → Prop where
  | nil : ValuesScrub libraries denylist [] []
  | cons {k : String} {x y : Json} {xs ys : List (String × Json)} (first : JsonScrubs libraries denylist x y)
      (rest : ValuesScrub libraries denylist xs ys) : ValuesScrub libraries denylist ((k,x) :: xs) ((k,y) :: ys)
end

structure CallScrubs (libraries : RedactLibraries) (denylist : List String) (raw out : ToolCallRecord) : Prop where
  tool_name : out.tool_name = raw.tool_name
  input : JsonScrubs libraries denylist raw.input out.input
  stdout : Option.Rel (Scrubs libraries denylist) raw.stdout out.stdout
  stderr : Option.Rel (Scrubs libraries denylist) raw.stderr out.stderr
  is_error : out.is_error = raw.is_error
  interrupted : out.interrupted = raw.interrupted

structure TurnScrubs (libraries : RedactLibraries) (denylist : List String) (raw out : ConversationTurn) : Prop where
  timestamp : out.timestamp = raw.timestamp
  uuid : out.uuid = raw.uuid
  user_text : Scrubs libraries denylist raw.user_text out.user_text
  assistant_text : Scrubs libraries denylist raw.assistant_text out.assistant_text
  tool_calls : List.Forall₂ (CallScrubs libraries denylist) raw.tool_calls out.tool_calls

/-! ## What redaction returns -/

/-- A step of a redaction that counts. -/
theorem scrub_bind {α β : Type} {m : Scrub α} {f : α → Scrub β} {n k : Nat} {b : β} (ran : (m >>= f).run n = some (b,k)) :
    ∃ a l, m.run n = some (a,l) ∧ (f a).run l = some (b,k) := by
  rw [StateT.run_bind] at ran
  obtain ⟨⟨a,l⟩,first,next⟩ := Option.bind_eq_some_iff.mp ran
  exact ⟨a,l,first,next⟩

theorem scrub_pure {α : Type} {a b : α} {n k : Nat} (ran : (pure a : Scrub α).run n = some (b,k)) : a = b := by
  rw [StateT.run_pure] at ran
  exact (Prod.mk.inj (Option.some.inj ran)).1

theorem scrub_mapM {α : Type} {f : α → Scrub α} {rel : α → α → Prop} {xs ys : List α} {n k : Nat}
    (each : ∀ x ∈ xs, ∀ y n k, (f x).run n = some (y,k) → rel x y) (ran : (xs.mapM f).run n = some (ys,k)) : List.Forall₂ rel xs ys := by
  induction xs generalizing ys n k with
  | nil =>
    rw [List.mapM_nil] at ran
    rw [← scrub_pure ran]
    exact List.Forall₂.nil
  | cons x xs ih =>
    rw [List.mapM_cons] at ran
    obtain ⟨y,l,first,ran⟩ := scrub_bind ran
    obtain ⟨zs,l',rest,ran⟩ := scrub_bind ran
    rw [← scrub_pure ran]
    exact List.Forall₂.cons (each x List.mem_cons_self y n l first) (ih (fun x member => each x (List.mem_cons_of_mem _ member)) rest)

/-- A text without findings is left as it is. -/
theorem redact_unchanged {text out : Text} {denylist : List Text} (redacted : redact_text_with_denylist libraries text denylist = some (out,[])) :
    out = text := by
  have narrow : ¬ WideSeparator text := by
    intro wide
    unfold redact_text_with_denylist at redacted
    rw [collects_none wide] at redacted
    cases redacted
  obtain ⟨pieces,last,whole,first⟩ := (redact_text_pieces libraries text denylist).mpr narrow
  obtain ⟨rfl,none_⟩ := Prod.mk.inj (Option.some.inj (redacted.symm.trans first))
  obtain rfl := List.map_eq_nil_iff.mp none_.symm
  exact whole.symm

theorem scrubs_of_redacted (plain : Plain libraries) {raw : String} {out : Text} {findings : List Finding}
    (redacted : redact_text_with_denylist libraries raw.toList (denylist.map String.toList) = some (out,findings)) :
    Scrubs libraries denylist raw (String.ofList out) := by
  have same : (String.ofList out).toList = out := String.toList_ofList
  refine ⟨⟨findings,by rw [same]; exact redacted⟩,fun regular literal a => ?_⟩
  rw [same]
  exact redact_clean plain regular redacted literal a

/-- A redaction within a count. -/
theorem scrub_lift {α : Type} {m : Option α} {a : α} {n k : Nat} (ran : (liftM m : Scrub α).run n = some (a,k)) : m = some a := by
  cases m with
  | none => cases ran
  | some b => exact congrArg some (Prod.mk.inj (Option.some.inj ran)).1

theorem redact_content_scrubs (plain : Plain libraries) {raw out : String} {n k : Nat}
    (ran : (redact_content libraries denylist raw).run n = some (out,k)) : Scrubs libraries denylist raw out := by
  unfold redact_content at ran
  obtain ⟨⟨clean,findings⟩,l,first,ran⟩ := scrub_bind ran
  obtain ⟨_,l',_,ran⟩ := scrub_bind ran
  rw [← scrub_pure ran]
  exact scrubs_of_redacted plain (scrub_lift first)

theorem redact_field_scrubs (plain : Plain libraries) {raw out : String} {n k : Nat}
    (ran : (redact_field libraries denylist raw).run n = some (out,k)) : Scrubs libraries denylist raw out := by
  unfold redact_field at ran
  obtain ⟨⟨clean,findings⟩,l,first,ran⟩ := scrub_bind ran
  obtain ⟨_,l',_,ran⟩ := scrub_bind ran
  rw [← scrub_pure ran]
  have scrubs := scrubs_of_redacted plain (scrub_lift first)
  cases findings with
  | nil =>
    rw [redact_unchanged (scrub_lift first),String.ofList_toList] at scrubs
    exact scrubs
  | cons f findings => exact scrubs

mutual
theorem redact_json_scrubs (plain : Plain libraries) : ∀ {raw out : Json} {n k : Nat},
    (redact_json_strings libraries denylist raw).run n = some (out,k) → JsonScrubs libraries denylist raw out
  | .null,_,_,_,ran => by
    rw [redact_json_strings] at ran
    rw [← scrub_pure ran]
    exact .null
  | .bool b,_,_,_,ran => by
    rw [redact_json_strings] at ran
    rw [← scrub_pure ran]
    exact .bool b
  | .int i,_,_,_,ran => by
    rw [redact_json_strings] at ran
    rw [← scrub_pure ran]
    exact .int i
  | .float x,_,_,_,ran => by
    rw [redact_json_strings] at ran
    rw [← scrub_pure ran]
    exact .float x
  | .str s,_,_,_,ran => by
    rw [redact_json_strings] at ran
    obtain ⟨clean,_,first,ran⟩ := scrub_bind ran
    rw [← scrub_pure ran]
    exact .str (redact_field_scrubs plain first)
  | .arr items,_,_,_,ran => by
    rw [redact_json_strings] at ran
    obtain ⟨clean,_,first,ran⟩ := scrub_bind ran
    rw [← scrub_pure ran]
    exact .arr (redact_items_scrub plain first)
  | .obj fields,_,_,_,ran => by
    rw [redact_json_strings] at ran
    obtain ⟨clean,_,first,ran⟩ := scrub_bind ran
    rw [← scrub_pure ran]
    exact .obj (redact_values_scrub plain first)
theorem redact_items_scrub (plain : Plain libraries) : ∀ {raw out : List Json} {n k : Nat},
    (redact_items libraries denylist raw).run n = some (out,k) → ItemsScrub libraries denylist raw out
  | [],_,_,_,ran => by
    rw [redact_items] at ran
    rw [← scrub_pure ran]
    exact .nil
  | item :: rest,_,_,_,ran => by
    rw [redact_items] at ran
    obtain ⟨clean,_,first,ran⟩ := scrub_bind ran
    obtain ⟨later,_,next,ran⟩ := scrub_bind ran
    rw [← scrub_pure ran]
    exact .cons (redact_json_scrubs plain first) (redact_items_scrub plain next)
theorem redact_values_scrub (plain : Plain libraries) : ∀ {raw out : List (String × Json)} {n k : Nat},
    (redact_values libraries denylist raw).run n = some (out,k) → ValuesScrub libraries denylist raw out
  | [],_,_,_,ran => by
    rw [redact_values] at ran
    rw [← scrub_pure ran]
    exact .nil
  | (k,v) :: rest,_,_,_,ran => by
    rw [redact_values] at ran
    obtain ⟨clean,_,first,ran⟩ := scrub_bind ran
    obtain ⟨later,_,next,ran⟩ := scrub_bind ran
    rw [← scrub_pure ran]
    exact .cons (redact_json_scrubs plain first) (redact_values_scrub plain next)
end

theorem redact_optional_scrubs (plain : Plain libraries) {raw out : Option String} {n k : Nat}
    (ran : (redact_optional libraries denylist raw).run n = some (out,k)) : Option.Rel (Scrubs libraries denylist) raw out := by
  cases raw with
  | none =>
    rw [redact_optional] at ran
    rw [← scrub_pure ran]
    exact .none
  | some s =>
    rw [redact_optional] at ran
    obtain ⟨clean,_,first,ran⟩ := scrub_bind ran
    rw [← scrub_pure ran]
    exact .some (redact_field_scrubs plain first)

theorem redact_tool_call_scrubs (plain : Plain libraries) {raw out : ToolCallRecord} {n k : Nat}
    (ran : (redact_tool_call libraries denylist raw).run n = some (out,k)) : CallScrubs libraries denylist raw out := by
  unfold redact_tool_call at ran
  obtain ⟨input,_,first,ran⟩ := scrub_bind ran
  obtain ⟨stdout,_,second,ran⟩ := scrub_bind ran
  obtain ⟨stderr,_,third,ran⟩ := scrub_bind ran
  rw [← scrub_pure ran]
  exact ⟨rfl,redact_json_scrubs plain first,redact_optional_scrubs plain second,redact_optional_scrubs plain third,rfl,rfl⟩

theorem redact_turns_scrub (plain : Plain libraries) {raw out : List ConversationTurn} {n k : Nat}
    (ran : (redact_turns libraries denylist raw).run n = some (out,k)) : List.Forall₂ (TurnScrubs libraries denylist) raw out := by
  refine scrub_mapM (fun turn _ clean n k ran => ?_) ran
  unfold redact_turn at ran
  obtain ⟨user_text,_,first,ran⟩ := scrub_bind ran
  obtain ⟨assistant_text,_,second,ran⟩ := scrub_bind ran
  obtain ⟨tool_calls,_,third,ran⟩ := scrub_bind ran
  rw [← scrub_pure ran]
  exact ⟨rfl,rfl,redact_field_scrubs plain first,redact_field_scrubs plain second,
    scrub_mapM (fun _ _ _ _ _ ran => redact_tool_call_scrubs plain ran) third⟩

/-! ## Runs -/

/-- A fact that some call of the extractor returns. -/
def Extracted (callbacks : Callbacks) (fact : ExtractedFact) : Prop :=
  ∃ log episode outcome facts, callbacks.extract log episode outcome = .ok facts ∧ fact ∈ facts

/-- The texts of a fact are redacted. -/
structure FactScrubs (libraries : RedactLibraries) (denylist : List String) (content : String) (metadata : Json) (out : String) (out_metadata : Json) :
    Prop where
  content : Scrubs libraries denylist content out
  metadata : JsonScrubs libraries denylist metadata out_metadata

section runs
variable (ctx : PrepareCtx)

/-- A candidate has one redacted turn of the session, its id and keywords of the tables. -/
structure EpisodeScrubs (parsed : ParsedSession) (episode : CandidateEpisode) : Prop where
  turn : ∃ raw ∈ reconstruct_turns ctx.libraries.turns parsed.entries, ∃ turn,
    TurnScrubs ctx.libraries.redaction ctx.config.denylist raw turn ∧ episode.turns = [turn]
  session_id : episode.session_id = parsed.session_id
  keywords : ∀ kw ∈ episode.matched_keywords,
    kw ∈ BUG_KEYWORDS ++ BUG_ERROR_KEYWORD :: DECISION_KEYWORDS ++ CONVENTION_KEYWORDS ++ LEARNING_KEYWORDS

/-- What the import of a session hands to the consumer. -/
def SessionPassed (parsed : ParsedSession) : Passed → Prop
  | .extract episode _ => EpisodeScrubs ctx parsed episode
  | .embed content => ∃ fact, Extracted ctx.callbacks fact ∧ Scrubs ctx.libraries.redaction ctx.config.denylist fact.content content
  | .should_pin input => ∃ fact, Extracted ctx.callbacks fact ∧
    FactScrubs ctx.libraries.redaction ctx.config.denylist fact.content fact.metadata input.content input.metadata

/-- A fact that is stored for an extracted one. -/
def FactStored (stored : NewFact × Nat) : Prop := ∃ fact, Extracted ctx.callbacks fact ∧ stored.1.content_hash = "" ∧
  FactScrubs ctx.libraries.redaction ctx.config.denylist fact.content fact.metadata stored.1.content stored.1.metadata

structure SessionStored (parsed : ParsedSession) (prepared : PreparedSession) : Prop where
  marker : prepared.marker = marker ctx parsed
  facts : ∀ stored ∈ prepared.facts, FactStored ctx stored

/-- The metadata of a memory file before redaction. -/
def rawMetadata (file : MemoryFile) : Json := build_metadata file.file_name file.parsed (classify_memory_type file.parsed.mem_type).2

def MemoryPassed (file : MemoryFile) : Passed → Prop
  | .extract _ _ => False
  | .embed content => Scrubs ctx.libraries.redaction ctx.config.denylist file.parsed.body content
  | .should_pin input => FactScrubs ctx.libraries.redaction ctx.config.denylist file.parsed.body (rawMetadata file) input.content input.metadata

def MemoryStored (file : MemoryFile) (stored : Option (NewFact × Nat)) : Prop := ∀ fact ∈ stored, fact.1.content_hash = "" ∧
  FactScrubs ctx.libraries.redaction ctx.config.denylist file.parsed.body (rawMetadata file) fact.1.content fact.1.metadata

end runs

variable {ctx : PrepareCtx} {P : Passed → Prop}

theorem safe_scrubbed {α : Type} {scrub : Scrub α} {Q : α → Prop} (holds : ∀ a n k, scrub.run n = some (a,k) → Q a) :
    Safe P (fun r => Q r.1) (scrubbed scrub) := by
  unfold scrubbed
  cases ran : scrub.run 0 with
  | none => exact safe_fail _
  | some clean => exact safe_pure (holds clean.1 0 clean.2 ran)

theorem safe_cleanContent (plain : Plain ctx.libraries.redaction) (redact : ctx.config.redact = true) (content : String) :
    Safe P (fun r => Scrubs ctx.libraries.redaction ctx.config.denylist content r.1) (ctx.cleanContent content) := by
  unfold PrepareCtx.cleanContent
  rw [if_pos redact]
  exact safe_scrubbed fun _ _ _ ran => redact_content_scrubs plain ran

theorem safe_cleanMetadata (plain : Plain ctx.libraries.redaction) (redact : ctx.config.redact = true) (metadata : Json) :
    Safe P (fun r => JsonScrubs ctx.libraries.redaction ctx.config.denylist metadata r.1) (ctx.cleanMetadata metadata) := by
  unfold PrepareCtx.cleanMetadata
  rw [if_pos redact]
  exact safe_scrubbed fun _ _ _ ran => redact_json_scrubs plain ran

theorem safe_cleanTurns (plain : Plain ctx.libraries.redaction) (redact : ctx.config.redact = true) (turns : List ConversationTurn) :
    Safe P (fun r => List.Forall₂ (TurnScrubs ctx.libraries.redaction ctx.config.denylist) turns r.1) (cleanTurns ctx turns) := by
  unfold cleanTurns
  rw [if_pos redact]
  exact safe_scrubbed fun _ _ _ ran => redact_turns_scrub plain ran

theorem safe_callEmbed {callbacks : Callbacks} {content : String} (passes : P (.embed content)) :
    Safe P (fun _ => True) (callbacks.callEmbed content) := safe_pass passes fun _ _ _ => trivial

theorem safe_callShouldPin {callbacks : Callbacks} {input : ClassifierInput} (passes : P (.should_pin input)) :
    Safe P (fun _ => True) (callbacks.callShouldPin input) := by
  unfold Callbacks.callShouldPin
  cases callbacks.should_pin with
  | none => exact safe_pure trivial
  | some should_pin => exact safe_pass passes fun _ _ _ => trivial

theorem safe_callExtract {callbacks : Callbacks} {episode : CandidateEpisode} {outcome : SessionOutcome} (passes : P (.extract episode outcome)) :
    Safe P (fun facts => ∀ fact ∈ facts, Extracted callbacks fact) (callbacks.callExtract episode outcome) := by
  refine safe_pass passes fun log facts answered fact member => ?_
  cases returned : callbacks.extract log episode outcome with
  | error e =>
    rw [returned] at answered
    cases answered
  | ok found =>
    rw [returned] at answered
    cases answered
    exact ⟨log,episode,outcome,facts,returned,member⟩

/-- One extracted fact: redaction comes before all that is done with it. -/
theorem safe_prepare_extracted_fact (plain : Plain ctx.libraries.redaction) (redact : ctx.config.redact = true) (parsed : ParsedSession)
    {fact : ExtractedFact} (extracted : Extracted ctx.callbacks fact) (effective_created : DateTime) :
    Safe (SessionPassed ctx parsed) (fun stored => ∀ f ∈ stored, FactStored ctx f) (prepare_extracted_fact ctx fact effective_created) := by
  unfold prepare_extracted_fact
  refine (safe_cleanContent plain redact fact.content).bind fun content scrubs => ?_
  refine (safe_cleanMetadata plain redact fact.metadata).bind fun metadata scrubs' => ?_
  dsimp only
  split
  · refine (safe_callEmbed ⟨fact,extracted,scrubs⟩).bind fun embedding _ => ?_
    refine (safe_callShouldPin ⟨fact,extracted,scrubs,scrubs'⟩).bind fun is_pinned _ => ?_
    refine safe_pure fun f member => ?_
    cases member
    exact ⟨fact,extracted,rfl,scrubs,scrubs'⟩
  · exact safe_pure fun f none_ => absurd none_ (by simp)

theorem safe_prepare_candidate (plain : Plain ctx.libraries.redaction) (redact : ctx.config.redact = true) {parsed : ParsedSession}
    {candidate : CandidateEpisode} (scrubs : EpisodeScrubs ctx parsed candidate) (outcome : SessionOutcome) {facts : List (NewFact × Nat)}
    (stored : ∀ f ∈ facts, FactStored ctx f) :
    Safe (SessionPassed ctx parsed) (fun facts => ∀ f ∈ facts, FactStored ctx f) (prepare_candidate ctx outcome facts candidate) := by
  unfold prepare_candidate
  refine (safe_callExtract scrubs).bind fun extracted each => safe_foldlM (fun facts fact member stored => ?_) stored
  refine (safe_prepare_extracted_fact plain redact parsed (each fact member) candidate.timestamp).bind fun found holds => safe_pure fun f member => ?_
  rcases List.mem_append.mp member with old | new
  · exact stored f old
  · exact holds f (Option.mem_toList.mp new)

theorem mem_truncated {turns : List ConversationTurn} {turn : ConversationTurn} (kept : turn ∈ truncated ctx turns) : turn ∈ turns := by
  unfold truncated at kept
  split at kept
  · exact List.mem_of_mem_drop kept
  · exact kept

/-- What corresponds to an element of the second list. -/
theorem forall₂_right {α : Type} {rel : α → α → Prop} {xs ys : List α} (all : List.Forall₂ rel xs ys) {y : α} (member : y ∈ ys) :
    ∃ x ∈ xs, rel x y := by
  induction all with
  | nil => cases member
  | cons first _ ih =>
    rcases List.mem_cons.mp member with rfl | later
    · exact ⟨_,List.mem_cons_self,first⟩
    · obtain ⟨x,original,related⟩ := ih later
      exact ⟨x,List.mem_cons_of_mem _ original,related⟩

/-- The import of a session. -/
theorem safe_prepare_session (plain : Plain ctx.libraries.redaction) (redact : ctx.config.redact = true) (parsed : ParsedSession) :
    Safe (SessionPassed ctx parsed) (SessionStored ctx parsed) (prepare_session ctx parsed) := by
  unfold prepare_session
  refine (safe_cleanTurns plain redact _).bind fun clean scrubs => ?_
  dsimp only
  refine Safe.bind (Q := fun facts => ∀ f ∈ facts, FactStored ctx f) (safe_foldlM (fun facts candidate member stored => ?_) ?_) fun facts stored => ?_
  · obtain ⟨id,⟨turn,kept,single⟩,keywords⟩ := keyword_prefilter_turns member
    obtain ⟨raw,original,scrubbed⟩ := forall₂_right scrubs (mem_truncated kept)
    exact safe_prepare_candidate plain redact ⟨⟨raw,original,turn,scrubbed,single⟩,id,keywords⟩ _ stored
  · exact fun f none_ => absurd none_ List.not_mem_nil
  · exact safe_pure ⟨rfl,stored⟩

/-- The import of a memory file. -/
theorem safe_prepare_memory_file (plain : Plain ctx.libraries.redaction) (redact : ctx.config.redact = true) (file : MemoryFile) :
    Safe (MemoryPassed ctx file) (MemoryStored ctx file) (prepare_memory_file ctx file) := by
  unfold prepare_memory_file
  split
  · exact safe_pure fun f none_ => absurd none_ (by simp)
  · refine Safe.bind (Q := fun fact => MemoryStored ctx file (some fact)) ?_ fun fact stored => safe_pure stored
    unfold prepare_one_memory
    refine (safe_cleanContent plain redact _).bind fun content scrubs => ?_
    dsimp only
    refine (safe_callEmbed scrubs).bind fun embedding _ => ?_
    refine (safe_cleanMetadata plain redact _).bind fun metadata scrubs' => ?_
    refine (safe_callShouldPin ⟨scrubs,scrubs'⟩).bind fun is_pinned _ => ?_
    refine safe_pure fun f member => ?_
    cases member
    exact ⟨rfl,scrubs,scrubs'⟩

/-- Both importers hand out and store redacted texts of the input, and the marker. -/
theorem bootstrap_redacts (ctx : PrepareCtx) (plain : Plain ctx.libraries.redaction) (redact : ctx.config.redact = true) :
    (∀ parsed, Safe (SessionPassed ctx parsed) (SessionStored ctx parsed) (prepare_session ctx parsed)) ∧
      ∀ file, Safe (MemoryPassed ctx file) (MemoryStored ctx file) (prepare_memory_file ctx file) :=
  ⟨safe_prepare_session plain redact,safe_prepare_memory_file plain redact⟩

/-! ## All texts -/

mutual
/-- The strings of a document, with the keys of its objects. -/
def jsonTexts : Json → List String
  | .str s => [s]
  | .arr items => itemTexts items
  | .obj fields => fieldTexts fields
  | .null => []
  | .bool _ => []
  | .int _ => []
  | .float _ => []
def itemTexts : List Json → List String
  | [] => []
  | item :: rest => jsonTexts item ++ itemTexts rest
def fieldTexts : List (String × Json) → List String
  | [] => []
  | (k,v) :: rest => k :: jsonTexts v ++ fieldTexts rest
end

def callTexts (tc : ToolCallRecord) : List String := tc.tool_name :: jsonTexts tc.input ++ tc.stdout.toList ++ tc.stderr.toList

def turnTexts (turn : ConversationTurn) : List String := turn.user_text :: turn.assistant_text :: turn.uuid :: turn.tool_calls.flatMap callTexts

def Passed.texts : Passed → List String
  | .extract episode _ => episode.session_id :: episode.matched_keywords ++ episode.turns.flatMap turnTexts
  | .embed content => [content]
  | .should_pin input => input.content :: jsonTexts input.metadata

def factTexts (fact : NewFact) : List String := fact.content :: jsonTexts fact.metadata

def PreparedSession.texts (prepared : PreparedSession) : List String :=
  prepared.marker.source :: prepared.marker.origin_node_id :: prepared.marker.session_id.toList ++ jsonTexts prepared.marker.payload ++
    prepared.facts.flatMap fun stored => factTexts stored.1

/-- None of all texts that are handed out or stored holds a literal. -/
def AllClean (ctx : PrepareCtx) : Prop :=
  (∀ parsed, Safe (fun passed => ∀ s ∈ passed.texts, Clean ctx.config.denylist s)
    (fun prepared => ∀ s ∈ prepared.texts, Clean ctx.config.denylist s) (prepare_session ctx parsed)) ∧
  ∀ file, Safe (fun passed => ∀ s ∈ passed.texts, Clean ctx.config.denylist s)
    (fun stored => ∀ fact ∈ stored, ∀ s ∈ factTexts fact.1, Clean ctx.config.denylist s) (prepare_memory_file ctx file)

/-- An import with one literal in the denylist. -/
def hunter : PrepareCtx where
  libraries := ⟨.ascii,⟨fun _ => none,Sample.moment,id⟩,fun _ => "",fun _ => .Indeterminate⟩
  callbacks := ⟨fun _ _ _ => .ok [],fun _ _ => .ok [],none⟩
  config := ⟨0,true,["hunter2"]⟩
  scope_id := 1

theorem bootstrap_redacts_sample : Safe (MemoryPassed hunter ⟨"a.md",none,none,none,none,none,none,"pw hunter2"⟩)
    (MemoryStored hunter ⟨"a.md",none,none,none,none,none,none,"pw hunter2"⟩)
    (prepare_memory_file hunter ⟨"a.md",none,none,none,none,none,none,"pw hunter2"⟩) :=
  (bootstrap_redacts hunter plain_ascii rfl).2 _

/-- A session whose id is a literal of the denylist. -/
theorem session_id_stored : ¬ ∀ ctx : PrepareCtx, Plain ctx.libraries.redaction → ctx.config.redact = true →
    (∀ fact, Extracted ctx.callbacks fact → ∀ s ∈ fact.content :: jsonTexts fact.metadata, Clean ctx.config.denylist s) → AllClean ctx := by
  intro clean
  have safe := (clean hunter plain_ascii rfl fun fact extracted => by
    obtain ⟨_,_,_,facts,returned,member⟩ := extracted
    cases returned
    cases member).1 ⟨[⟨.User,some "hunter2",none,none,none,none,none⟩],0,"hunter2"⟩ []
  have kept := safe.2 _ rfl "hunter2" (by simp [PreparedSession.texts,marker])
  refine kept "hunter2".toList [] ⟨List.mem_singleton_self _,by decide,⟨[],rfl⟩,fun start stop genuine => ?_⟩
  -- the text is shorter than any placeholder
  obtain ⟨rule,_,a,b,whole,_⟩ := genuine.stands
  have sizes := congrArg ByteText.size whole
  have long := placeholder_size rule
  have short : ByteText.size "hunter2".toList = 7 := by decide
  simp only [ByteText.size_append] at sizes
  omega

end MemoryEngine.Importer
