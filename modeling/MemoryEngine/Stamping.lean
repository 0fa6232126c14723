import MemoryEngine.Changes

/-! Identities before vectors. A commit keeps the vectors of the facts and the recorded
identity, and the calls that an operation makes put no vector into a store that has no
identity. -/

namespace MemoryEngine
open Time KeyedTable Transaction

/-- A later version of a fact, with the same vector. -/
def Fact.SameVector (f f' : Fact) : Prop := f'.embedding = f.embedding

theorem Fact.SameVector.refl (f : Fact) : f.SameVector f := rfl

/-- What a sequence of changes by a handle of one dimension does to vectors and
    identities. -/
structure Tables.Writes (dim expected_dim : Nat) (s t : Tables) : Prop where
  facts : s.facts.Ages Fact.SameVector t.facts
  fresh : ∀ f ∈ t.facts.rows, s.facts.seq < Row.key f → f.embedding.length = dim
  summaries : ∀ x ∈ t.summaries.rows, x ∈ s.summaries.rows ∨ x.embedding.length = dim
  vectors : t.fact_vectors ⊆ s.fact_vectors
  spaces : t.embedding_spaces = s.embedding_spaces ∨ (s.activeSpace = none ∧ ∃ fp : EmbeddingFingerprint,
    fp.dim = expected_dim ∧ t.embedding_spaces = s.embedding_spaces ++ [⟨EmbeddingSpace.DEFAULT_NAME,fp,.Active⟩])

theorem activeSpace_congr {s t : Tables} (same : t.embedding_spaces = s.embedding_spaces) : t.activeSpace = s.activeSpace :=
  congrArg (List.find? EmbeddingSpace.isActive) same

theorem activeSpace_stamped {s t : Tables} {fp : EmbeddingFingerprint} (fresh : s.activeSpace = none)
    (stamped : t.embedding_spaces = s.embedding_spaces ++ [⟨EmbeddingSpace.DEFAULT_NAME,fp,.Active⟩]) :
    t.activeSpace = some ⟨EmbeddingSpace.DEFAULT_NAME,fp,.Active⟩ := by
  have none : s.embedding_spaces.find? EmbeddingSpace.isActive = none := fresh
  rw [Tables.activeSpace,stamped,List.find?_append,none]
  rfl

namespace Tables.Writes
variable {dim expected_dim : Nat} {s m t : Tables}

theorem refl (t : Tables) : Writes dim expected_dim t t where
  facts := .refl Fact.SameVector.refl _
  fresh := fun _ member high => absurd (t.facts.allocated _ member) (not_le.mpr high)
  summaries := fun _ member => .inl member
  vectors := List.Subset.refl _
  spaces := .inl rfl

/-- A recorded identity stays. -/
theorem identity (writes : Writes dim expected_dim s t) (recorded : s.activeSpace ≠ none) : t.activeSpace = s.activeSpace := by
  rcases writes.spaces with same | ⟨none,_⟩
  · exact activeSpace_congr same
  · exact absurd none recorded

theorem trans (first : Writes dim expected_dim s m) (second : Writes dim expected_dim m t) : Writes dim expected_dim s t where
  facts := first.facts.trans (fun _ _ _ early late => late.trans early) second.facts
  fresh := by
    intro f member high
    by_cases low : Row.key f ≤ m.facts.seq
    · obtain ⟨before,held,same,kept⟩ := second.facts.old f member low
      change f.embedding = before.embedding at kept
      rw [kept]
      exact first.fresh before held (same ▸ high)
    · exact second.fresh f member (not_le.mp low)
  summaries := by
    intro x member
    rcases second.summaries x member with old | sized
    · exact first.summaries x old
    · exact .inr sized
  vectors := fun _ held => first.vectors (second.vectors held)
  spaces := by
    rcases first.spaces with same | ⟨none,fp,sized,stamped⟩
    · rcases second.spaces with again | ⟨none,fp,sized,stamped⟩
      · exact .inl (again.trans same)
      · exact .inr ⟨activeSpace_congr same ▸ none,fp,sized,same ▸ stamped⟩
    · rcases second.spaces with same | ⟨unrecorded,_⟩
      · exact .inr ⟨none,fp,sized,same.trans stamped⟩
      · rw [activeSpace_stamped none stamped] at unrecorded
        cases unrecorded

/-- Tables that keep their facts, summaries, vectors and spaces. -/
theorem same (facts : t.facts = s.facts) (summaries : t.summaries = s.summaries) (vectors : t.fact_vectors = s.fact_vectors)
    (spaces : t.embedding_spaces = s.embedding_spaces) : Writes dim expected_dim s t where
  facts := facts ▸ .refl Fact.SameVector.refl _
  fresh := fun _ member high => absurd (t.facts.allocated _ member) (not_le.mpr (facts ▸ high))
  summaries := fun _ member => .inl (summaries ▸ member)
  vectors := vectors ▸ List.Subset.refl _
  spaces := .inl spaces

theorem of_change (change : Change dim expected_dim s t) : Writes dim expected_dim s t := by
  have unchanged : Writes dim expected_dim s s := refl s
  cases change with
  | insert_fact row tagged sized =>
    refine { unchanged with facts := .insert Fact.SameVector.refl _ row tagged, fresh := fun f member high => ?_ }
    have listed : f ∈ (s.facts.insert row tagged).rows := member
    rcases Table.mem_insert.mp listed with old | rfl
    · exact absurd (s.facts.allocated f old) (not_le.mpr high)
    · exact sized _
  | update_facts sel change same kept =>
    refine { unchanged with facts := .update Fact.SameVector.refl _ same fun f _ selected => (kept f selected).vector, fresh := fun f member high => ?_ }
    exact absurd ((s.facts.update sel change same).allocated f member) (not_le.mpr high)
  | delete_facts sel =>
    refine { unchanged with facts := .delete Fact.SameVector.refl _ _, fresh := fun f member high => ?_, vectors := fun _ held => (List.mem_filter.mp held).1 }
    exact absurd ((s.facts.delete sel).allocated f member) (not_le.mpr high)
  | insert_summary row tagged sized =>
    refine { unchanged with summaries := fun x member => ?_ }
    have listed : x ∈ (s.summaries.insert row tagged).rows := member
    rcases Table.mem_insert.mp listed with old | rfl
    · exact .inl old
    · exact .inr (sized _)
  | delete_summaries sel => exact { unchanged with summaries := fun x member => .inl (Table.mem_delete.mp member).1 }
  | stamp fingerprint fresh sized => exact { unchanged with spaces := .inr ⟨fresh,fingerprint,sized,rfl⟩ }
  | beside beside => exact .same beside.facts beside.summaries beside.vectors beside.spaces
  | _ => exact .same rfl rfl rfl rfl

theorem of_changes (changes : Changes dim expected_dim s t) : Writes dim expected_dim s t :=
  changes.respects refl (fun _ _ _ => trans) fun _ _ => of_change

/-- Changes that a handle of any dimension could make leave no new fact. -/
theorem quiet_facts (quiet : ∀ dim, ∃ expected_dim, Writes dim expected_dim s t) (f : Fact) (member : f ∈ t.facts.rows) :
    Row.key f ≤ s.facts.seq := by
  obtain ⟨_,zero⟩ := quiet 0
  obtain ⟨_,one⟩ := quiet 1
  by_contra high
  -- its vector would have two lengths
  have none := zero.fresh f member (not_le.mp high)
  have single := one.fresh f member (not_le.mp high)
  omega

theorem quiet_summaries (quiet : ∀ dim, ∃ expected_dim, Writes dim expected_dim s t) (x : Summary) (member : x ∈ t.summaries.rows) :
    x ∈ s.summaries.rows := by
  obtain ⟨_,zero⟩ := quiet 0
  obtain ⟨_,one⟩ := quiet 1
  rcases zero.summaries x member with old | none
  · exact old
  · rcases one.summaries x member with old | single
    · exact old
    · omega

end Tables.Writes

/-- A store without an identity holds no vector of a fact or a summary. -/
def Tables.Stamped (t : Tables) : Prop := t.activeSpace = none → t.facts.rows = [] ∧ t.summaries.rows = []

/-- An identity stays, and so does the rule that vectors need one. -/
structure Tables.Guarded (s t : Tables) : Prop where
  identity : s.activeSpace ≠ none → t.activeSpace ≠ none
  stamped : s.Stamped → t.Stamped

namespace Tables.Guarded
variable {dim expected_dim : Nat} {s m t : Tables}

theorem refl (t : Tables) : Guarded t t := ⟨fun recorded => recorded,fun stamped => stamped⟩

theorem trans (first : Guarded s m) (second : Guarded m t) : Guarded s t :=
  ⟨fun recorded => second.identity (first.identity recorded),fun stamped => second.stamped (first.stamped stamped)⟩

/-- With an identity at the end there is nothing to guard. -/
theorem of_recorded (recorded : t.activeSpace ≠ none) : Guarded s t :=
  ⟨fun _ => recorded,fun _ none => absurd none recorded⟩

/-- A fact at the beginning means an identity at the end. -/
theorem of_fact (writes : Writes dim expected_dim s t) (present : s.facts.rows ≠ []) : Guarded s t := by
  have kept : s.activeSpace ≠ none → t.activeSpace ≠ none := fun recorded => writes.identity recorded ▸ recorded
  refine ⟨kept,fun stamped none => ?_⟩
  have recorded : s.activeSpace ≠ .none := fun unrecorded => present (stamped unrecorded).1
  exact absurd none (kept recorded)

/-- Changes that a handle of any dimension could make bring no vector. -/
theorem of_quiet (quiet : ∀ dim, ∃ expected_dim, Writes dim expected_dim s t) : Guarded s t := by
  obtain ⟨_,zero⟩ := quiet 0
  refine ⟨fun recorded => zero.identity recorded ▸ recorded,fun stamped none => ?_⟩
  have unrecorded : s.activeSpace = .none := by
    by_contra recorded
    rw [zero.identity recorded] at none
    exact recorded none
  obtain ⟨facts,summaries⟩ := stamped unrecorded
  constructor
  · refine List.eq_nil_iff_forall_not_mem.mpr fun f member => ?_
    obtain ⟨before,held,_⟩ := zero.facts.old f member (Writes.quiet_facts quiet f member)
    rw [facts] at held
    cases held
  · refine List.eq_nil_iff_forall_not_mem.mpr fun x member => ?_
    have held := Writes.quiet_summaries quiet x member
    rw [summaries] at held
    cases held

end Tables.Guarded

/-- Every commit keeps the identity and the rule. -/
abbrev Guards {α : Type} (x : Sql α) : Prop := Keeps (fun s t : Db => Tables.Guarded s.toTables t.toTables) x

section guards
variable {α β : Type}

theorem guards_quiet (expected_dim : Nat) {x : Sql α} (makes : ∀ dim, Makes dim expected_dim x) : Guards x :=
  fun s a t committed => .of_quiet fun dim => ⟨expected_dim,.of_changes (makes dim s a t committed)⟩

theorem guards_bind {x : Sql α} {f : α → Sql β} (first : Guards x) (rest : ∀ a, Guards (f a)) : Guards (x >>= f) := by
  refine Keeps.bind ?_ first rest
  exact fun s m t left right => left.trans right

theorem guards_guarded {p : Prop} [Decidable p] {x : Sql Unit} (guards : p → Guards x) : Guards (guarded p x) := by
  by_cases met : p
  · exact Keeps.guarded (fun s => .refl _) (guards met)
  · intro s u t committed
    rw [guarded,if_neg met] at committed
    obtain ⟨_,rfl⟩ := commits_pure.mp committed
    exact .refl _

theorem guards_foldlM {f : β → α → Sql β} {items : List α} (round : ∀ b, ∀ a ∈ items, Guards (f b a)) (b : β) :
    Guards (items.foldlM f b) := by
  refine Keeps.foldlM_mem ?_ ?_ round b
  · exact fun s => .refl _
  · exact fun s m t left right => left.trans right

/-- What follows a commit that leaves an identity. -/
theorem guards_settled (embed_dim expected_dim : Nat) {x : Sql α} {f : α → Sql β} (settles : ∀ s a t, Commits x s a t → t.activeSpace ≠ none)
    (rest : ∀ a, Makes embed_dim expected_dim (f a)) : Guards (x >>= f) := by
  intro s b t committed
  obtain ⟨a,m,first,second⟩ := commits_bind.mp committed
  have writes := Tables.Writes.of_changes (rest a m b t second)
  have recorded := settles s a m first
  exact .of_recorded (writes.identity recorded ▸ recorded)

theorem EmbeddingMeta.settles_record_if_absent {candidate : EmbeddingFingerprint} {expected_dim : Nat} {s t : Db} {stored : EmbeddingFingerprint}
    (committed : Commits (record_if_absent candidate expected_dim) s stored t) : t.activeSpace ≠ none := by
  rcases commits_record_if_absent committed with ⟨recorded,rfl⟩ | ⟨none,_,contents⟩
  · intro none
    rw [none] at recorded
    cases recorded
  · rw [activeSpace_stamped none (congrArg Tables.embedding_spaces contents)]
    exact Option.some_ne_none _

theorem EmbeddingMeta.guards_record_if_absent (candidate : EmbeddingFingerprint) (expected_dim : Nat) :
    Guards (record_if_absent candidate expected_dim) := fun _ _ _ committed => .of_recorded (settles_record_if_absent committed)

end guards

namespace Ingest
variable (self : SqliteBackend)

theorem guards_insert_fact_atomic (fact : NewFact) (fingerprint : EmbeddingFingerprint) (expected_dim : Nat) :
    Guards (insert_fact_atomic self fact fingerprint expected_dim) := by
  exact guards_settled self.embed_dim expected_dim (fun _ _ _ => EmbeddingMeta.settles_record_if_absent) fun _ => FactStore.makes_insert self fact

theorem guards_insert_facts_batch_atomic (facts : List NewFact) (scope_paths : List (Option String)) (fingerprint : EmbeddingFingerprint)
    (expected_dim : Nat) : Guards (insert_facts_batch_atomic self facts scope_paths fingerprint expected_dim) := by
  refine guards_bind (guards_quiet expected_dim fun _ => makes_require) fun _ => ?_
  refine guards_settled self.embed_dim expected_dim (fun _ _ _ => EmbeddingMeta.settles_record_if_absent) fun _ => ?_
  have inserted (resolved : ResolvedScopes) : Makes self.embed_dim expected_dim (insertEntries self (facts.zip resolved.per_entry)) :=
    makes_foldlM (fun _ entry => makes_bind (FactStore.makes_insert self _) fun _ => makes_pure _) _ _
  exact makes_bind (makes_foldlM makes_resolveEntry _ _) fun resolved => makes_bind (inserted resolved) fun _ => makes_pure _

theorem guards_promote_atomic (fact : NewFact) (scope_path : Option String) (source_fact_ids : List FactId) (provenance : PromotionProvenance) :
    Guards (promote_atomic self fact scope_path source_fact_ids provenance) := by
  intro s result t committed
  have writes := Tables.Writes.of_changes ((makes_promote_atomic self fact scope_path source_fact_ids provenance : Makes _ 0 _) s result t committed)
  obtain ⟨_,_,gated,_⟩ := commits_bind.mp committed
  obtain ⟨recorded,rfl⟩ := EmbeddingMeta.commits_require_present.mp gated
  exact .of_recorded (writes.identity recorded ▸ recorded)

end Ingest

/-- A conflict is resolved over a fact that is there. -/
theorem Resolve.guards_resolve_conflict_atomic (self : SqliteBackend) (decision : CrudDecision) (old_id : FactId) (new_fact : NewFact)
    (relation : String) (weight : F64) (now : DateTime) :
    Guards (resolve_conflict_atomic self decision old_id new_fact relation weight now) := by
  intro s ids t committed
  have writes := Tables.Writes.of_changes
    ((makes_resolve_conflict_atomic self decision old_id new_fact relation weight now : Makes _ 0 _) s ids t committed)
  have present {m : Db} {u : Unit} (expired : Commits (cascade_expire old_id now) s u m) : s.facts.rows ≠ [] := by
    obtain ⟨_,_,first,_⟩ := commits_bind.mp expired
    obtain ⟨f,member,_⟩ := (FactStore.commits_updateActive.mp first).1
    exact List.ne_nil_of_mem member
  cases decision with
  | Noop =>
    obtain ⟨_,rfl⟩ := commits_pure.mp committed
    exact .refl _
  | Add =>
    obtain ⟨_,_,asked,gating⟩ := commits_bind.mp committed
    obtain ⟨rfl,rfl⟩ := FactStore.commits_is_active.mp asked
    obtain ⟨_,_,gated,_⟩ := commits_bind.mp gating
    obtain ⟨f,member,_⟩ := of_decide_eq_true (commits_require.mp gated).1
    exact .of_fact writes (List.ne_nil_of_mem member)
  | Update =>
    obtain ⟨_,_,expired,_⟩ := commits_bind.mp committed
    exact .of_fact writes (present expired)
  | Delete =>
    obtain ⟨_,_,expired,_⟩ := commits_bind.mp committed
    exact .of_fact writes (present expired)

namespace Bootstrap
variable {self : SqliteBackend}

theorem ingest_flags {marker_id : Option Int} {facts : List NewFact} {out flags : List (FactId × Bool)} {s t : Db}
    (committed : Commits (facts.foldlM (fun out fact => do
      let flag ← FactStore.insert_or_reinforce self (linked marker_id fact)
      return out ++ [flag]) out) s flags t) : out ⊆ flags := by
  induction facts generalizing out s with
  | nil =>
    obtain ⟨rfl,_⟩ := commits_pure.mp committed
    exact List.Subset.refl _
  | cons fact rest ih =>
    rw [List.foldlM_cons] at committed
    obtain ⟨_,m,round,later⟩ := commits_bind.mp committed
    obtain ⟨flag,_,_,last⟩ := commits_bind.mp round
    obtain ⟨rfl,_⟩ := commits_pure.mp last
    exact fun earlier listed => ih later (List.mem_append_left _ listed)

/-- Into a store without facts the first fact is new. -/
theorem ingest_new {marker_id : Option Int} {fact : NewFact} {rest : List NewFact} {flags : List (FactId × Bool)} {s t : Db}
    (empty : s.facts.rows = []) (committed : Commits (ingestFacts self marker_id (fact :: rest)) s flags t) :
    flags.any (fun flag => !flag.2) = true := by
  rw [ingestFacts,List.foldlM_cons] at committed
  obtain ⟨_,m,round,later⟩ := commits_bind.mp committed
  obtain ⟨flag,_,inserted,last⟩ := commits_bind.mp round
  obtain ⟨rfl,rfl⟩ := commits_pure.mp last
  obtain ⟨_,_,sized,looking⟩ := commits_bind.mp inserted
  obtain ⟨_,rfl⟩ := commits_require.mp sized
  obtain ⟨found,_,looked,inserting⟩ := commits_bind.mp looking
  obtain ⟨rfl,rfl⟩ := commits_query.mp looked
  rw [FactStore.existing,empty] at inserting
  obtain ⟨_,_,_,flagged⟩ := commits_bind.mp inserting
  obtain ⟨rfl,_⟩ := commits_pure.mp flagged
  exact List.any_eq_true.mpr ⟨_,ingest_flags later (List.mem_append_right _ (List.mem_singleton_self _)),rfl⟩

theorem guards_ingestMarked (marker : Option NewEvent) (facts : List NewFact) (fingerprint : EmbeddingFingerprint) (expected_dim : Nat) :
    Guards (ingestMarked self marker facts fingerprint expected_dim) := by
  have marked : Guards (insertMarker self marker) := by
    cases marker with
    | some event => exact guards_quiet expected_dim fun _ => makes_bind (EventStore.makes_insert self event) fun _ => makes_pure _
    | none => exact guards_quiet expected_dim fun _ => makes_pure _
  refine guards_bind marked fun marker_id => ?_
  intro s outcome t committed
  obtain ⟨flags,m,ingested,recording⟩ := commits_bind.mp committed
  obtain ⟨_,m',recorded,last⟩ := commits_bind.mp recording
  obtain ⟨_,rfl⟩ := commits_pure.mp last
  have fills : Makes self.embed_dim expected_dim (ingestFacts self marker_id facts) :=
    makes_foldlM (fun _ fact => makes_bind (FactStore.makes_insert_or_reinforce _) fun _ => makes_pure _) _ _
  have filled := Tables.Writes.of_changes (fills s flags m ingested)
  have stamps : Guards (guarded (flags.any (fun flag => !flag.2) = true) do let _ ← EmbeddingMeta.record_if_absent fingerprint expected_dim) :=
    guards_guarded fun _ => guards_bind (EmbeddingMeta.guards_record_if_absent _ _) fun _ => guards_quiet expected_dim fun _ => makes_pure _
  have stamped := stamps _ _ _ recorded
  by_cases empty : s.facts.rows = []
  · cases facts with
    | nil =>
      obtain ⟨_,rfl⟩ := commits_pure.mp ingested
      exact stamped
    | cons fact rest =>
      rw [guarded,if_pos (ingest_new empty ingested)] at recorded
      obtain ⟨_,_,settled,last⟩ := commits_bind.mp recorded
      obtain ⟨_,rfl⟩ := commits_pure.mp last
      exact .of_recorded (EmbeddingMeta.settles_record_if_absent settled)
  · exact (Tables.Guarded.of_fact filled empty).trans stamped

theorem guards_ingest_bootstrap_batch_atomic (marker : Option NewEvent) (skip_if_present : Option EventFilter) (facts : List NewFact)
    (fingerprint : EmbeddingFingerprint) (expected_dim : Nat) :
    Guards (ingest_bootstrap_batch_atomic self marker skip_if_present facts fingerprint expected_dim) := by
  cases skip_if_present with
  | none => exact guards_ingestMarked _ _ _ _
  | some filter =>
    refine guards_bind (guards_quiet expected_dim fun _ => makes_bind makes_require fun _ => makes_query) fun present => ?_
    split
    · exact guards_quiet expected_dim fun _ => makes_pure _
    · exact guards_ingestMarked _ _ _ _

end Bootstrap

/-- A delta that makes a fact. -/
def CycleDelta.makesFact : CycleDelta → Bool
  | .AddFact _ => true
  | .Promote _ _ => true
  | .Synthesize _ _ => true
  | _ => false

namespace Cycle
variable (self : SqliteBackend)

/-- A delta that makes no fact does the same through a handle of any dimension. -/
theorem makes_applyDelta_quiet {embed_dim expected_dim : Nat} (now : DateTime) (pass : ApplyPass) {delta : CycleDelta}
    (quiet : delta.makesFact = false) : Makes embed_dim expected_dim (applyDelta self now pass delta) := by
  cases delta with
  | AddFact nf => cases quiet
  | Synthesize sources new_fact => cases quiet
  | Promote fact_id provenance => cases quiet
  | AdjustScore fact_id adjustment =>
    exact makes_bind (FactStore.makes_get self _) fun _ => makes_bind (FactStore.makes_update_base_importance _ _) fun _ => makes_pure _
  | Quarantine fact_id reason =>
    exact makes_bind (FactStore.makes_expire _ _) fun _ => makes_bind (FactStore.makes_merge_metadata _ _) fun _ => makes_pure _
  | TagOutcome fact_id outcome => exact makes_bind (EventStore.makes_insert self _) fun _ => makes_pure _
  | Supersede old_id new_id =>
    exact makes_bind (FactStore.makes_get self _) fun _ => makes_bind (makes_supersede _ _ _ _ _) fun _ => makes_pure _

/-- A delta that brings no vector of its own copies that of a fact which is there. -/
theorem guards_applyDelta (now : DateTime) (pass : ApplyPass) {delta : CycleDelta} (brings : addsVector delta = false) :
    Guards (applyDelta self now pass delta) := by
  cases delta with
  | AddFact nf => cases brings
  | Synthesize sources new_fact => cases brings
  | Promote fact_id provenance =>
    intro s pass' t committed
    have makes : Makes self.embed_dim 0 (applyDelta self now pass (.Promote fact_id provenance)) := makes_applyDelta self now pass _
    have writes := Tables.Writes.of_changes (makes s pass' t committed)
    obtain ⟨source,_,got,_⟩ := commits_bind.mp committed
    exact .of_fact writes (List.ne_nil_of_mem (Table.find_eq_some.mp (FactStore.commits_get.mp got).1).1)
  | _ => exact guards_quiet 0 fun _ => makes_applyDelta_quiet self now pass rfl

theorem guards_apply_cycle_deltas_atomic (codec : HistoryCodec) (report : CycleReport) (now : DateTime) :
    Guards (apply_cycle_deltas_atomic self codec report now) := by
  refine guards_bind (guards_quiet 0 fun _ => makes_validate_report self report) fun _ => ?_
  by_cases brings : report.deltas.any addsVector = true
  · refine guards_settled self.embed_dim 0 ?_ fun _ => makes_bind (makes_foldlM (makes_applyDelta self now) _ _) (makes_closing codec report now)
    intro s u t gated
    rw [require_identity,guarded,if_pos brings] at gated
    obtain ⟨recorded,rfl⟩ := EmbeddingMeta.commits_require_present.mp gated
    exact recorded
  · have without : ∀ delta ∈ report.deltas, addsVector delta = false := by
      intro delta listed
      rw [Bool.eq_false_iff]
      exact fun one => brings (List.any_eq_true.mpr ⟨delta,listed,one⟩)
    refine guards_bind (guards_guarded fun met => absurd met brings) fun _ => ?_
    refine guards_bind (guards_foldlM (fun pass delta listed => guards_applyDelta self now pass (without delta listed)) _) fun pass => ?_
    exact guards_quiet 0 fun _ => makes_closing codec report now pass

end Cycle

/-- The plan carries the identity of the summaries in it. -/
def ConsolidationPlan.Stamped (plan : ConsolidationPlan) : Prop :=
  plan.cluster_summaries ≠ [] ∨ plan.global_summary ≠ none → plan.embedding_fingerprint ≠ none

namespace Consolidate
variable (self : SqliteBackend)

theorem guards_write_summaries {plan : ConsolidationPlan} (stamped : plan.Stamped) : Guards (write_summaries self plan) := by
  cases fingerprint : plan.embedding_fingerprint with
  | some fp =>
    intro s u t committed
    obtain ⟨_,_,_,rest⟩ := commits_bind.mp committed
    obtain ⟨_,_,_,recording⟩ := commits_bind.mp rest
    rw [fingerprint] at recording
    obtain ⟨_,_,recorded,last⟩ := commits_bind.mp recording
    obtain ⟨_,rfl⟩ := commits_pure.mp last
    exact .of_recorded (EmbeddingMeta.settles_record_if_absent recorded)
  | none =>
    have bare : plan.cluster_summaries = [] ∧ plan.global_summary = none := by
      by_contra some
      exact stamped (by tauto) fingerprint
    have cleared (level : ConsolidationLevel) (dim : Nat) : Makes dim 0 (do SummaryStore.delete_by_level level; insertAll self []) :=
      makes_bind (SummaryStore.makes_delete_by_level level) fun _ => makes_pure _
    rw [write_summaries,fingerprint,bare.1,bare.2]
    refine guards_quiet 0 fun dim => ?_
    exact makes_bind (cleared .Cluster dim) fun _ => makes_bind (cleared .Global dim) fun _ => makes_pure _

theorem guards_apply_plan {plan : ConsolidationPlan} (stamped : plan.Stamped) : Guards (apply_plan self plan) := by
  refine guards_bind (guards_quiet 0 fun _ => makes_apply_dedup self _ _) fun applied => ?_
  refine guards_bind (guards_guarded fun _ => guards_write_summaries self stamped) fun _ => ?_
  exact guards_quiet 0 fun _ => makes_bind (makes_guarded (Config.makes_set_config _ _)) fun _ => makes_pure _

end Consolidate

namespace PortWrite

/-- A call that may put a vector of a fact or a summary into the store. -/
def Embeds : PortWrite → Prop
  | .insert_fact _ => True
  | .insert_or_reinforce_fact _ => True
  | .insert_fact_atomic _ _ _ => True
  | .insert_facts_batch_atomic _ _ _ _ => True
  | .resolve_conflict_atomic _ _ _ _ _ _ => True
  | .ingest_bootstrap_batch_atomic _ _ _ _ _ => True
  | .insert_summary _ => True
  | .apply_cycle_deltas_atomic _ _ _ => True
  | .apply_plan _ => True
  | .promote_atomic _ _ _ _ => True
  | _ => False

/-- Every other call does the same through a handle of any dimension. -/
theorem run_resize (self : SqliteBackend) {call : PortWrite} (quiet : ¬ call.Embeds) (dim : Nat) :
    call.run self = call.run { self with embed_dim := dim } := by
  cases call <;> first | exact absurd trivial quiet | rfl

theorem quiet (self : SqliteBackend) {call : PortWrite} (ordinary : ¬ call.OnSpaces) (quiet : ¬ call.Embeds) {s t : Db}
    (committed : Commits (call.run self) s () t) : ∀ dim, ∃ expected_dim, Tables.Writes dim expected_dim s.toTables t.toTables := by
  intro dim
  rw [run_resize self quiet dim] at committed
  exact ⟨_,.of_changes (PortWrite.makes { self with embed_dim := dim } ordinary s () t committed)⟩

/-- The calls that settle the identity of what they write: a lone insert does not, and a
    plan may fail to. -/
def Stamps : PortWrite → Prop
  | .insert_fact _ => False
  | .insert_or_reinforce_fact _ => False
  | .insert_summary _ => False
  | .apply_plan plan => plan.Stamped
  | _ => True

theorem guards (self : SqliteBackend) {call : PortWrite} (ordinary : ¬ call.OnSpaces) (stamps : call.Stamps) : Guards (call.run self) := by
  have void {α : Type} {x : Sql α} (guards : Guards x) : Guards (do let _ ← x) :=
    guards_bind guards fun _ => guards_quiet 0 fun _ => makes_pure _
  by_cases embeds : call.Embeds
  · cases call with
    | insert_fact fact => exact absurd stamps id
    | insert_or_reinforce_fact fact => exact absurd stamps id
    | insert_summary summary => exact absurd stamps id
    | insert_fact_atomic fact fingerprint expected_dim => exact void (Ingest.guards_insert_fact_atomic self _ _ _)
    | insert_facts_batch_atomic facts scope_paths fingerprint expected_dim => exact void (Ingest.guards_insert_facts_batch_atomic self _ _ _ _)
    | resolve_conflict_atomic decision old_id new_fact relation weight now => exact void (Resolve.guards_resolve_conflict_atomic self _ _ _ _ _ _)
    | ingest_bootstrap_batch_atomic marker skip_if_present facts fingerprint expected_dim =>
      exact void (Bootstrap.guards_ingest_bootstrap_batch_atomic _ _ _ _ _)
    | apply_cycle_deltas_atomic codec report now => exact void (Cycle.guards_apply_cycle_deltas_atomic self _ _ _)
    | apply_plan plan => exact void (Consolidate.guards_apply_plan self stamps)
    | promote_atomic fact scope_path source_fact_ids provenance => exact void (Ingest.guards_promote_atomic self _ _ _ _)
    | _ => cases embeds
  · exact fun s u t committed => .of_quiet (PortWrite.quiet self ordinary embeds committed)

end PortWrite
end MemoryEngine
