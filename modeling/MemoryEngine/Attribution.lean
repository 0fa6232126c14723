import MemoryEngine.IngestMirror
import MemoryEngine.Reconstruct
import MemoryEngine.VectorNotices

/-! The identity a vector was produced under. The calls that embed texts pass the identity
of the embedder and have it compared with the recorded one; the calls that are given
vectors pass none, and a reconstruction compares dimensions only. -/

namespace MemoryEngine
open Time KeyedTable Transaction FactVectors

/-- The vectors of the facts. -/
def Tables.embeddings (t : Tables) : List Embedding := t.facts.rows.map Fact.embedding

/-- Every vector was there or was given. -/
def Brings (given : List Embedding) (s t : Tables) : Prop := t.embeddings ⊆ s.embeddings ++ given

/-- The vectors that a delta brings of its own. -/
def CycleDelta.given : CycleDelta → List Embedding
  | .AddFact nf => [nf.embedding]
  | .Synthesize _ new_fact => [new_fact.embedding]
  | _ => []

namespace PortWrite

/-- The vectors that a call may put into the facts table. -/
def given : PortWrite → List Embedding
  | .insert_fact fact => [fact.embedding]
  | .insert_or_reinforce_fact fact => [fact.embedding]
  | .insert_fact_atomic fact _ _ => [fact.embedding]
  | .insert_facts_batch_atomic facts _ _ _ => facts.map NewFact.embedding
  | .ingest_bootstrap_batch_atomic _ _ facts _ _ => facts.map NewFact.embedding
  | .resolve_conflict_atomic decision _ new_fact _ _ _ => if decision = .Add ∨ decision = .Update then [new_fact.embedding] else []
  | .promote_atomic fact _ _ _ => [fact.embedding]
  | .apply_cycle_deltas_atomic _ report _ => report.deltas.flatMap CycleDelta.given
  | _ => []

/-- The identity that the vectors are passed under. -/
def declared : PortWrite → Option EmbeddingFingerprint
  | .insert_fact_atomic _ fingerprint _ => some fingerprint
  | .insert_facts_batch_atomic _ _ fingerprint _ => some fingerprint
  | .ingest_bootstrap_batch_atomic _ _ _ fingerprint _ => some fingerprint
  | _ => none

end PortWrite

namespace Brings
variable {given given' : List Embedding} {s m t : Tables}

theorem trans (first : Brings given s m) (second : Brings given' m t) : Brings (given ++ given') s t := by
  intro v held
  rcases List.mem_append.mp (second held) with before | late
  · rcases List.mem_append.mp (first before) with old | early
    · exact List.mem_append_left _ old
    · exact List.mem_append_right _ (List.mem_append_left _ early)
  · exact List.mem_append_right _ (List.mem_append_right _ late)

theorem embeddings_eq (t : Tables) : t.embeddings = t.vectors.map Prod.snd := by
  unfold Tables.embeddings Tables.vectors
  rw [List.map_map]
  rfl

theorem of_vectors {news : List (FactId × Embedding)} (vectors : t.vectors = s.vectors ++ news)
    (known : ∀ entry ∈ news, entry.2 ∈ s.embeddings ∨ entry.2 ∈ given) : Brings given s t := by
  intro v held
  rw [embeddings_eq,vectors,List.map_append,← embeddings_eq] at held
  rcases List.mem_append.mp held with old | fresh
  · exact List.mem_append_left _ old
  · obtain ⟨entry,listed,rfl⟩ := List.mem_map.mp fresh
    exact List.mem_append.mpr (known entry listed)

theorem of_kept (vectors : t.vectors = s.vectors) : Brings given s t :=
  of_vectors (vectors.trans (List.append_nil _).symm) fun _ listed => absurd listed List.not_mem_nil

/-- What a handle of any dimension could do brings no vector. -/
theorem of_quiet (quiet : ∀ dim, ∃ expected_dim, Tables.Writes dim expected_dim s t) : Brings given s t := by
  obtain ⟨_,writes⟩ := quiet 0
  intro v held
  obtain ⟨f,member,rfl⟩ := List.mem_map.mp held
  obtain ⟨before,there,_,same⟩ := writes.facts.old f member (Tables.Writes.quiet_facts quiet f member)
  change f.embedding = before.embedding at same
  rw [same]
  exact List.mem_append_left _ (List.mem_map_of_mem there)

end Brings

namespace Cycle
variable {self : SqliteBackend}

/-- A promotion copies the vector of its source. -/
theorem brings_applyDelta {now : DateTime} {pass pass' : ApplyPass} {delta : CycleDelta} {s t : Db}
    (committed : Commits (applyDelta self now pass delta) s pass' t) : Brings delta.given s.toTables t.toTables := by
  cases delta with
  | AddFact nf =>
    obtain ⟨id,m,inserted,last⟩ := commits_bind.mp committed
    obtain ⟨rfl,rfl⟩ := commits_pure.mp last
    exact .of_vectors (FactStore.vectors_insert inserted) (List.forall_mem_singleton.mpr (.inr (List.mem_singleton_self _)))
  | Promote fact_id provenance =>
    obtain ⟨source,m,got,checking⟩ := commits_bind.mp committed
    obtain ⟨found,_,rfl⟩ := FactStore.commits_get.mp got
    obtain ⟨_,m₁,sized,guarding⟩ := commits_bind.mp checking
    obtain ⟨_,rfl⟩ := commits_require.mp sized
    obtain ⟨_,m₂,present,inserting⟩ := commits_bind.mp guarding
    obtain ⟨promoted_id,m₃,inserted,recording⟩ := commits_bind.mp inserting
    obtain ⟨_,m₄,recorded,last⟩ := commits_bind.mp recording
    obtain ⟨rfl,rfl⟩ := commits_pure.mp last
    have copied := FactStore.vectors_insert inserted
    rw [EmbeddingMeta.leaves_require_present Tables.vectors _ _ _ present] at copied
    rw [← LineageStore.leaves_insert Tables.vectors (fun _ _ => rfl) _ _ _ _ _ recorded] at copied
    refine .of_vectors copied (List.forall_mem_singleton.mpr (.inl ?_))
    exact List.mem_map_of_mem (Table.find_eq_some.mp found).1
  | Synthesize sources new_fact =>
    obtain ⟨synth_id,m,inserted,rest⟩ := commits_bind.mp committed
    obtain ⟨last_pass,m',superseded,rest⟩ := commits_bind.mp rest
    obtain ⟨_,m'',recorded,last⟩ := commits_bind.mp rest
    obtain ⟨rfl,rfl⟩ := commits_pure.mp last
    obtain ⟨loop,index⟩ := accounts_sources superseded
    obtain ⟨news,grown,vectors⟩ := loop.vectors
    rw [index,List.self_eq_append_right] at grown
    rw [grown,List.append_nil,FactStore.vectors_insert inserted,← LineageStore.leaves_insert Tables.vectors (fun _ _ => rfl) _ _ _ _ _ recorded] at vectors
    exact .of_vectors vectors (List.forall_mem_singleton.mpr (.inr (List.mem_singleton_self _)))
  | _ => exact .of_quiet fun dim => ⟨0,.of_changes ((makes_applyDelta_quiet self now pass rfl : Makes dim 0 _) s pass' t committed)⟩

theorem brings_deltas {now : DateTime} {deltas : List CycleDelta} {pass pass' : ApplyPass} {s t : Db}
    (committed : Commits (deltas.foldlM (applyDelta self now) pass) s pass' t) : Brings (deltas.flatMap CycleDelta.given) s.toTables t.toTables := by
  induction deltas generalizing pass s with
  | nil =>
    obtain ⟨rfl,rfl⟩ := commits_pure.mp committed
    exact .of_kept rfl
  | cons delta rest ih =>
    rw [List.foldlM_cons] at committed
    obtain ⟨next,m,first,tail⟩ := commits_bind.mp committed
    exact (brings_applyDelta first).trans (ih tail)

theorem brings_apply_cycle_deltas_atomic {codec : HistoryCodec} {report : CycleReport} {now : DateTime} {s t : Db} {pass : ApplyPass}
    (committed : Commits (apply_cycle_deltas_atomic self codec report now) s pass t) :
    Brings (report.deltas.flatMap CycleDelta.given) s.toTables t.toTables := by
  obtain ⟨m,m',m'',_,_,applied,marked,dated,appended⟩ := commits_report.mp committed
  have facts : t.facts = m'.facts := by
    rw [leaves_append_cycle_history _ _ m'' () t appended,commits_execute.mp dated]
  have vectors : t.vectors = m.vectors := by
    rw [← FactStore.leaves_mark_dream_cycled _ _ _ _ _ _ marked]
    unfold Tables.vectors
    rw [facts]
  have whole := (brings_deltas applied).trans (Brings.of_kept vectors : Brings [] m.toTables t.toTables)
  rwa [List.append_nil] at whole

end Cycle

/-- Whether it was there or not, the identity is the one that was asked for. -/
theorem EmbeddingMeta.identity_record_if_absent {candidate stored : EmbeddingFingerprint} {expected_dim : Nat} {s t : Db}
    (committed : Commits (record_if_absent candidate expected_dim) s stored t) :
    t.activeSpace.map EmbeddingSpace.fingerprint = some candidate := by
  rcases commits_record_if_absent committed with ⟨recorded,rfl⟩ | ⟨none,_,contents⟩
  · exact recorded
  · rw [activeSpace_stamped none (congrArg Tables.embedding_spaces contents)]
    rfl

namespace Bootstrap
variable {self : SqliteBackend}

/-- A batch of facts that were all there brings no vector. -/
theorem kept_ingestFacts {marker_id : Option Int} {facts : List NewFact} {out flags : List (FactId × Bool)} {s t : Db}
    (committed : Commits (facts.foldlM (fun out fact => do
      let flag ← FactStore.insert_or_reinforce self (linked marker_id fact)
      return out ++ [flag]) out) s flags t) (known : ∀ flag ∈ flags, flag.2 = true) : t.vectors = s.vectors := by
  induction facts generalizing out s with
  | nil =>
    obtain ⟨_,rfl⟩ := commits_pure.mp committed
    rfl
  | cons fact rest ih =>
    rw [List.foldlM_cons] at committed
    obtain ⟨next,m,round,later⟩ := commits_bind.mp committed
    obtain ⟨flag,_,stored,last⟩ := commits_bind.mp round
    obtain ⟨rfl,rfl⟩ := commits_pure.mp last
    have reinforced := known flag (ingest_flags later (List.mem_append_right _ (List.mem_singleton_self _)))
    rw [ih later,FactStore.vectors_insert_or_reinforce stored,if_pos reinforced,List.append_nil]

theorem leaves_insertMarker (marker : Option NewEvent) : Leaves Tables.vectors (insertMarker self marker) := by
  cases marker with
  | none => exact leaves_pure _
  | some marker =>
    intro s a t committed
    obtain ⟨id,m,inserted,last⟩ := commits_bind.mp committed
    obtain ⟨_,rfl⟩ := commits_pure.mp last
    unfold Tables.vectors
    rw [(EventStore.keepsCore_insert self _ _ _ _ inserted).1]

/-- A batch with a new fact records its identity last. -/
theorem settles_ingestMarked {marker : Option NewEvent} {facts : List NewFact} {fingerprint : EmbeddingFingerprint} {expected_dim : Nat} {s t : Db}
    {outcome : BootstrapIngestOutcome} (committed : Commits (ingestMarked self marker facts fingerprint expected_dim) s outcome t) :
    t.vectors = s.vectors ∨ t.activeSpace.map EmbeddingSpace.fingerprint = some fingerprint := by
  obtain ⟨marker_id,m₁,marked,ingesting⟩ := commits_bind.mp committed
  obtain ⟨out,m₂,ingested,stamping⟩ := commits_bind.mp ingesting
  obtain ⟨_,m₃,stamped,last⟩ := commits_bind.mp stamping
  obtain ⟨rfl,rfl⟩ := commits_pure.mp last
  rcases commits_guarded.mp stamped with ⟨_,recording⟩ | ⟨none,rfl⟩
  · obtain ⟨_,_,recorded,closed⟩ := commits_bind.mp recording
    obtain ⟨_,rfl⟩ := commits_pure.mp closed
    exact .inr (EmbeddingMeta.identity_record_if_absent recorded)
  · have known : ∀ flag ∈ out, flag.2 = true := by simpa using none
    exact .inl ((kept_ingestFacts ingested known).trans (leaves_insertMarker marker _ _ _ marked))

theorem settles_ingest_bootstrap_batch_atomic {marker : Option NewEvent} {skip_if_present : Option EventFilter} {facts : List NewFact}
    {fingerprint : EmbeddingFingerprint} {expected_dim : Nat} {s t : Db} {outcome : BootstrapIngestOutcome}
    (committed : Commits (ingest_bootstrap_batch_atomic self marker skip_if_present facts fingerprint expected_dim) s outcome t) :
    t.vectors = s.vectors ∨ t.activeSpace.map EmbeddingSpace.fingerprint = some fingerprint := by
  unfold ingest_bootstrap_batch_atomic at committed
  cases skip_if_present with
  | none => exact settles_ingestMarked committed
  | some filter =>
    obtain ⟨present,m,counted,rest⟩ := commits_bind.mp committed
    obtain ⟨_,m',checked,queried⟩ := commits_bind.mp counted
    obtain ⟨_,rfl⟩ := commits_require.mp checked
    obtain ⟨_,rfl⟩ := commits_query.mp queried
    split at rest
    · obtain ⟨_,rfl⟩ := commits_pure.mp rest
      exact .inl rfl
    · exact settles_ingestMarked rest

end Bootstrap

namespace PortWrite
variable {self : SqliteBackend}

/-- A call puts the vectors it is given into the table, or copies of what is there. -/
theorem brings {call : PortWrite} (ordinary : ¬ call.OnSpaces) (stamps : call.Stamps) {s t : Db} (committed : Commits (call.run self) s () t) :
    Brings call.given s.toTables t.toTables := by
  by_cases embeds : call.Embeds
  · cases call with
    | insert_fact_atomic fact fingerprint expected_dim =>
      obtain ⟨id,m,ran,last⟩ := commits_bind.mp committed
      obtain ⟨_,rfl⟩ := commits_pure.mp last
      exact .of_vectors (Ingest.vectors_insert_fact_atomic ran) (List.forall_mem_singleton.mpr (.inr (List.mem_singleton_self _)))
    | insert_facts_batch_atomic facts scope_paths fingerprint expected_dim =>
      obtain ⟨r,m,ran,last⟩ := commits_bind.mp committed
      obtain ⟨_,rfl⟩ := commits_pure.mp last
      exact .of_vectors (Ingest.vectors_batch ran) fun entry listed => .inr (List.of_mem_zip listed).2
    | ingest_bootstrap_batch_atomic marker skip_if_present facts fingerprint expected_dim =>
      obtain ⟨r,m,ran,last⟩ := commits_bind.mp committed
      obtain ⟨_,rfl⟩ := commits_pure.mp last
      obtain ⟨news,vectors,known⟩ := Bootstrap.vectors_ingest_bootstrap_batch_atomic ran
      exact .of_vectors vectors fun entry listed => .inr (known entry listed)
    | resolve_conflict_atomic decision old_id new_fact relation weight now =>
      obtain ⟨r,m,ran,last⟩ := commits_bind.mp committed
      obtain ⟨_,rfl⟩ := commits_pure.mp last
      have vectors := Resolve.vectors_resolve_conflict_atomic ran
      refine .of_vectors vectors fun entry listed => .inr ?_
      obtain ⟨id,new,rfl⟩ := List.mem_map.mp listed
      cases decision with
      | Add => exact List.mem_singleton_self _
      | Update => exact List.mem_singleton_self _
      | Noop =>
        rw [(commits_pure.mp ran).1] at new
        cases new
      | Delete =>
        obtain ⟨_,_,_,closed⟩ := commits_bind.mp ran
        rw [(commits_pure.mp closed).1] at new
        cases new
    | promote_atomic fact scope_path source_fact_ids provenance =>
      obtain ⟨r,m,ran,last⟩ := commits_bind.mp committed
      obtain ⟨_,rfl⟩ := commits_pure.mp last
      exact .of_vectors (Ingest.vectors_promote_atomic ran) (List.forall_mem_singleton.mpr (.inr (List.mem_singleton_self _)))
    | apply_cycle_deltas_atomic codec report now =>
      obtain ⟨r,m,ran,last⟩ := commits_bind.mp committed
      obtain ⟨_,rfl⟩ := commits_pure.mp last
      exact Cycle.brings_apply_cycle_deltas_atomic ran
    | apply_plan plan =>
      obtain ⟨r,m,ran,last⟩ := commits_bind.mp committed
      obtain ⟨_,rfl⟩ := commits_pure.mp last
      exact .of_kept (Consolidate.leaves_apply_plan plan _ _ _ ran)
    | insert_fact fact => exact absurd stamps id
    | insert_or_reinforce_fact fact => exact absurd stamps id
    | insert_summary summary => exact absurd stamps id
    | _ => cases embeds
  · exact .of_quiet (quiet self ordinary embeds committed)

/-- The identity is settled first and kept by what follows. -/
theorem identity_stamped (embed_dim other_dim : Nat) {α : Type} {expected_dim : Nat} {fingerprint : EmbeddingFingerprint}
    {rest : EmbeddingFingerprint → Sql α} (makes : ∀ stored, Makes embed_dim other_dim (rest stored)) {s t : Db} {a : α}
    (committed : Commits (EmbeddingMeta.record_if_absent fingerprint expected_dim >>= rest) s a t) :
    t.activeSpace.map EmbeddingSpace.fingerprint = some fingerprint := by
  obtain ⟨stored,m,recorded,later⟩ := commits_bind.mp committed
  have writes := Tables.Writes.of_changes (makes stored m a t later)
  rw [writes.identity (EmbeddingMeta.settles_record_if_absent recorded)]
  exact EmbeddingMeta.identity_record_if_absent recorded

/-- Where vectors are passed under an identity and one is new, that is the recorded one. -/
theorem settles {call : PortWrite} {fingerprint : EmbeddingFingerprint} (declared : call.declared = some fingerprint) {s t : Db}
    (committed : Commits (call.run self) s () t) :
    t.vectors = s.vectors ∨ t.activeSpace.map EmbeddingSpace.fingerprint = some fingerprint := by
  cases call with
  | insert_fact_atomic fact stored expected_dim =>
    cases declared
    obtain ⟨id,m,ran,last⟩ := commits_bind.mp committed
    obtain ⟨_,rfl⟩ := commits_pure.mp last
    exact .inr (identity_stamped self.embed_dim 0 (fun _ => FactStore.makes_insert self fact) ran)
  | insert_facts_batch_atomic facts scope_paths stored expected_dim =>
    cases declared
    obtain ⟨r,m,ran,last⟩ := commits_bind.mp committed
    obtain ⟨_,rfl⟩ := commits_pure.mp last
    obtain ⟨_,_,_,stamping⟩ := commits_bind.mp ran
    have inserted (resolved : Ingest.ResolvedScopes) : Makes self.embed_dim expected_dim (Ingest.insertEntries self (facts.zip resolved.per_entry)) :=
      makes_foldlM (fun _ entry => makes_bind (FactStore.makes_insert self _) fun _ => makes_pure _) _ _
    refine .inr (identity_stamped self.embed_dim expected_dim (fun _ => ?_) stamping)
    exact makes_bind (makes_foldlM Ingest.makes_resolveEntry _ _) fun resolved => makes_bind (inserted resolved) fun _ => makes_pure _
  | ingest_bootstrap_batch_atomic marker skip_if_present facts stored expected_dim =>
    cases declared
    obtain ⟨r,m,ran,last⟩ := commits_bind.mp committed
    obtain ⟨_,rfl⟩ := commits_pure.mp last
    exact Bootstrap.settles_ingest_bootstrap_batch_atomic ran
  | _ => cases declared

end PortWrite
end MemoryEngine
