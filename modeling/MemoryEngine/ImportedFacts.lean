import MemoryEngine.BootstrapRedaction

/-! What the importers hand to the store: where the importance of a fact comes from,
and which of its parts were measured against the cap. -/

namespace MemoryEngine.Importer
open Time Traces Session

/-- A fact of a session: its importance is the extractor's, its texts fit the cap. -/
structure FromExtractor (ctx : PrepareCtx) (fact : NewFact) : Prop where
  importance : ∃ extracted, Extracted ctx.callbacks extracted ∧ fact.base_importance = extracted.importance
  counted : fact.access_count = 0
  content : fact.content.utf8ByteSize ≤ MAX_PAYLOAD_BYTES
  metadata : (fact.metadata.pieces ctx.libraries.float_text).sum ≤ MAX_PAYLOAD_BYTES

/-- A fact of a memory file: its importance is fixed, its texts are the redacted ones of
    the file, whatever their sizes. -/
structure FromFile (ctx : PrepareCtx) (file : MemoryFile) (fact : NewFact) : Prop where
  importance : fact.base_importance = MEMORY_IMPORTANCE
  counted : fact.access_count = 0
  content : ∃ log found, (ctx.cleanContent file.parsed.body log).2 = .ok (fact.content,found)
  metadata : ∃ log found, (ctx.cleanMetadata (rawMetadata file) log).2 = .ok (fact.metadata,found)

/-- Anything may be passed on. -/
abbrev Gives {α : Type} (Q : α → Prop) (m : Preparing α) : Prop := Safe (fun _ => True) Q m

section session
variable {ctx : PrepareCtx}

theorem gives_scrubbed {α : Type} (scrub : Scrub α) : Gives (fun _ => True) (scrubbed scrub) :=
  Safe.mono (safe_scrubbed (Q := fun _ => True) fun _ _ _ _ => trivial) fun _ _ => trivial

theorem gives_cleanContent (content : String) : Gives (fun _ => True) (ctx.cleanContent content) := by
  unfold PrepareCtx.cleanContent
  split
  · exact gives_scrubbed _
  · exact safe_pure trivial

theorem gives_cleanMetadata (metadata : Json) : Gives (fun _ => True) (ctx.cleanMetadata metadata) := by
  unfold PrepareCtx.cleanMetadata
  split
  · exact gives_scrubbed _
  · exact safe_pure trivial

theorem gives_cleanTurns (turns : List ConversationTurn) : Gives (fun _ => True) (cleanTurns ctx turns) := by
  unfold cleanTurns
  split
  · exact gives_scrubbed _
  · exact safe_pure trivial

theorem gives_callShouldPin (input : ClassifierInput) : Gives (fun _ => True) (ctx.callbacks.callShouldPin input) := by
  unfold Callbacks.callShouldPin
  split
  · exact safe_pass trivial fun _ _ _ => trivial
  · exact safe_pure trivial

theorem gives_extracted {fact : ExtractedFact} (extracted : Extracted ctx.callbacks fact) (effective_created : DateTime) :
    Gives (fun stored => ∀ f ∈ stored, FromExtractor ctx f.1) (prepare_extracted_fact ctx fact effective_created) := by
  unfold prepare_extracted_fact
  refine (gives_cleanContent fact.content).bind fun content _ => (gives_cleanMetadata fact.metadata).bind fun metadata _ => ?_
  dsimp only
  split
  · rename_i fits fits'
    refine Safe.bind (Q := fun _ => True) (safe_pass trivial fun _ _ _ => trivial) fun embedding _ => ?_
    refine (gives_callShouldPin _).bind fun is_pinned _ => safe_pure fun f member => ?_
    cases member
    exact ⟨⟨fact,extracted,rfl⟩,rfl,check_str_size_ok.mp fits,(check_json_size_ok _ _ _).mp fits'⟩
  · exact safe_pure fun f none_ => absurd none_ (by simp)

/-- Every fact of a prepared session is an extractor's and within the cap. -/
theorem gives_session (parsed : ParsedSession) :
    Gives (fun session => ∀ prepared ∈ session.facts, FromExtractor ctx prepared.1) (prepare_session ctx parsed) := by
  unfold prepare_session
  refine (gives_cleanTurns _).bind fun clean _ => ?_
  dsimp only
  refine Safe.bind (Q := fun facts => ∀ f ∈ facts, FromExtractor ctx f.1) (safe_foldlM (fun facts candidate _ stored => ?_) ?_) fun facts stored => ?_
  · unfold prepare_candidate
    refine Safe.bind (Q := fun extracted => ∀ fact ∈ extracted, Extracted ctx.callbacks fact) ?_ fun extracted each =>
      safe_foldlM (fun facts fact member stored => ?_) stored
    · exact (safe_callExtract (P := fun _ => True) trivial)
    · refine (gives_extracted (each fact member) candidate.timestamp).bind fun found holds => safe_pure fun f member => ?_
      rcases List.mem_append.mp member with old | new
      · exact stored f old
      · exact holds f (Option.mem_toList.mp new)
  · exact fun f none_ => absurd none_ List.not_mem_nil
  · exact safe_pure stored

end session

/-- The fact of a memory file. -/
theorem fromFile {ctx : PrepareCtx} {file : MemoryFile} {log : List Passed} {prepared : NewFact × Nat}
    (ran : (prepare_memory_file ctx file log).2 = .ok (some prepared)) : FromFile ctx file prepared.1 := by
  unfold prepare_memory_file at ran
  split at ran
  · cases ran
  · obtain ⟨one,log',made,last⟩ := ran_bind ran
    cases last
    have made' : (prepare_one_memory ctx file log).2 = .ok prepared := by rw [made]
    obtain ⟨⟨content,found⟩,log₁,cleaned,ran⟩ := ran_bind made'
    obtain ⟨embedding,log₂,_,ran⟩ := ran_bind ran
    obtain ⟨⟨metadata,found'⟩,log₃,cleaned',ran⟩ := ran_bind ran
    obtain ⟨is_pinned,log₄,_,ran⟩ := ran_bind ran
    cases ran
    have second : ctx.cleanMetadata (rawMetadata file) log₂ = (log₃,.ok (metadata,found')) := cleaned'
    exact ⟨rfl,rfl,⟨log,found,congrArg Prod.snd cleaned⟩,⟨log₂,found',congrArg Prod.snd second⟩⟩

end MemoryEngine.Importer
