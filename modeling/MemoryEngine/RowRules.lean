import MemoryEngine.VectorNotices

/-! Rules about single rows of the facts table. A rule holds of every row after a
transaction when it held of every row before and of every row that the transaction
inserts, raises or merges metadata into; the other rewrites respect every rule. -/

namespace MemoryEngine
open Time KeyedTable Transaction

/-- What a rewrite keeps that sets neither the content, the metadata nor the base
    importance of a fact: it counts no accesses away and makes no expired fact active. -/
structure Fact.Carried (f f' : Fact) : Prop where
  id : f'.id = f.id
  content : f'.content = f.content
  metadata : f'.metadata = f.metadata
  importance : f'.base_importance = f.base_importance
  counted : f.access_count ≤ f'.access_count
  expired : f'.t_expired = none → f.t_expired = none

theorem Fact.Carried.refl (f : Fact) : f.Carried f := ⟨rfl,rfl,rfl,rfl,le_refl _,fun active => active⟩

/-- A property of rows that such rewrites respect. -/
structure RowRule where
  holds : Fact → Prop
  carried : ∀ f f', f.Carried f' → holds f → holds f'

namespace RowRule

/-- Every row satisfies the rule. -/
def Of (rule : RowRule) (t : Tables) : Prop := ∀ f ∈ t.facts.rows, rule.holds f

/-- The row that an insertion writes satisfies the rule under every id. -/
def Admits (rule : RowRule) (self : SqliteBackend) (fact : NewFact) : Prop :=
  ∀ importance id, fact.base_importance = .num importance → rule.holds (FactStore.newRow self fact importance id)

/-- A fact may be reinforced up to an importance. -/
def Raises (rule : RowRule) (importance : SqlReal) : Prop :=
  ∀ f, rule.holds f → rule.holds { f with base_importance := max f.base_importance importance }

/-- A fact may be inserted, or an earlier one reinforced by it. -/
def Takes (rule : RowRule) (self : SqliteBackend) (fact : NewFact) : Prop :=
  rule.Admits self fact ∧ ∀ importance, fact.base_importance = .num importance → rule.Raises importance

/-- The base importance of one fact may be set. -/
def Sets (rule : RowRule) (id : FactId) (importance : SqlReal) : Prop :=
  ∀ f, f.id = id → rule.holds f → rule.holds { f with base_importance := importance }

/-- Keys may be merged into the metadata of one fact. -/
def Merges (rule : RowRule) (id : FactId) (fields : List (String × Json)) : Prop :=
  ∀ f, f.id = id → rule.holds f → rule.holds { f with metadata := FactStore.mergedMetadata f.metadata fields }

theorem of_facts {rule : RowRule} {s t : Tables} (same : t.facts = s.facts) (holds : rule.Of s) : rule.Of t := by
  intro f member
  rw [same] at member
  exact holds f member

/-- A row is rewritten by a change that respects the rule, or stays. -/
theorem of_update {rule : RowRule} {s t : Tables} {sel : Fact → Bool} {change : Fact → Fact}
    (written : t.facts.rows = s.facts.rows.map fun f => if sel f then change f else f)
    (respects : ∀ f, sel f = true → rule.holds f → rule.holds (change f)) (holds : rule.Of s) : rule.Of t := by
  intro f member
  rw [written] at member
  obtain ⟨old,there,rfl⟩ := List.mem_map.mp member
  by_cases selected : sel old = true
  · rw [if_pos selected]
    exact respects old selected (holds old there)
  · rw [if_neg selected]
    exact holds old there

end RowRule

/-- Every commit keeps a rule of all rows. -/
abbrev Obeys {α : Type} (rule : RowRule) (x : Sql α) : Prop := Keeps (fun s t : Db => rule.Of s.toTables → rule.Of t.toTables) x

section combinators
variable {α β : Type} {rule : RowRule}

/-- What leaves the facts alone obeys every rule. -/
theorem obeys_of_leaves {x : Sql α} (leaves : Leaves Tables.facts x) : Obeys rule x :=
  fun s a t committed holds => RowRule.of_facts (leaves s a t committed) holds

theorem obeys_query {read : Tables → α} : Obeys rule (query read) := obeys_of_leaves leaves_query

theorem obeys_require {p : Prop} [Decidable p] {error : MemoryError} : Obeys rule (require p error) := obeys_of_leaves leaves_require

theorem obeys_pure (a : α) : Obeys rule (pure a) := obeys_of_leaves (leaves_pure a)

theorem obeys_throw (e : MemoryError) : Obeys rule (throw e : Sql α) := Keeps.throw e

theorem obeys_execute {change : Tables → Tables} (one : ∀ t, rule.Of t → rule.Of (change t)) : Obeys rule (execute change) := by
  intro s u t committed holds
  rw [commits_execute.mp committed]
  exact one s.toTables holds

theorem obeys_beside {change : Tables → Tables} (same : ∀ t : Tables, (change t).facts = t.facts) : Obeys rule (execute change) :=
  obeys_of_leaves (leaves_execute same)

theorem obeys_bind {x : Sql α} {f : α → Sql β} (first : Obeys rule x) (rest : ∀ a, Obeys rule (f a)) : Obeys rule (x >>= f) := by
  refine Keeps.bind ?_ first rest
  exact fun s m t left right holds => right (left holds)

theorem obeys_attempt {x : Sql α} (obeys : Obeys rule x) : Obeys rule (attempt x) := by
  refine Keeps.attempt ?_ obeys
  exact fun s holds => holds

theorem obeys_guarded {p : Prop} [Decidable p] {x : Sql Unit} (obeys : Obeys rule x) : Obeys rule (guarded p x) := by
  refine Keeps.guarded ?_ obeys
  exact fun s holds => holds

theorem obeys_foldlM_mem {f : β → α → Sql β} {items : List α} (round : ∀ b, ∀ a ∈ items, Obeys rule (f b a)) (b : β) :
    Obeys rule (items.foldlM f b) := by
  refine Keeps.foldlM_mem ?_ ?_ round b
  · exact fun s holds => holds
  · exact fun s m t left right holds => right (left holds)

theorem obeys_foldlM {f : β → α → Sql β} (round : ∀ b a, Obeys rule (f b a)) (items : List α) (b : β) : Obeys rule (items.foldlM f b) :=
  obeys_foldlM_mem (fun b a _ => round b a) b

/-- Drop the value of a call. -/
theorem obeys_void {x : Sql α} (obeys : Obeys rule x) : Obeys rule (do let _ ← x) := obeys_bind obeys fun _ => obeys_pure _

end combinators

namespace FactStore
variable {self : SqliteBackend} {rule : RowRule}

theorem obeys_insert {fact : NewFact} (admits : rule.Admits self fact) : Obeys rule (insert self fact) := by
  intro s id t committed holds f member
  obtain ⟨_,importance,given,_,written⟩ := commits_insert.mp committed
  have listed : f ∈ (s.facts.insert (newRow self fact importance) (newRow_key self fact importance)).rows := by
    rw [written] at member
    exact member
  rcases Table.mem_insert.mp listed with old | rfl
  · exact holds f old
  · exact admits importance _ given

theorem obeys_get (id : FactId) : Obeys rule (get self id) := by
  intro s f t committed holds
  rw [(commits_get.mp committed).2.2]
  exact holds

theorem obeys_updateActive {id : FactId} {change : Fact → Fact} {same : ∀ f, (change f).id = f.id}
    (carried : ∀ f : Fact, f.t_expired = none → f.Carried (change f)) : Obeys rule (updateActive id change same) := by
  intro s u t committed holds
  rw [(commits_updateActive.mp committed).2]
  refine RowRule.of_update rfl (fun f selected here => rule.carried f _ (carried f ?_) here) holds
  simp only [Bool.and_eq_true,Option.isNone_iff_eq_none] at selected
  exact selected.2

/-- Only the row of one id is rewritten. -/
theorem obeys_updateRow {id : FactId} {change : Fact → Fact} {same : ∀ f, (change f).id = f.id}
    (respects : ∀ f, f.id = id → rule.holds f → rule.holds (change f)) : Obeys rule (updateRow id change same) := by
  intro s u t committed holds
  rw [(commits_updateRow.mp committed).2]
  exact RowRule.of_update rfl (fun f selected here => respects f (beq_iff_eq.mp selected) here) holds

theorem obeys_expire (id : FactId) (now : DateTime) : Obeys rule (expire id now) :=
  obeys_updateActive fun _ active => ⟨rfl,rfl,rfl,rfl,le_refl _,fun _ => active⟩

theorem obeys_expire_and_invalidate (id : FactId) (now : DateTime) : Obeys rule (expire_and_invalidate id now) :=
  obeys_updateActive fun _ active => ⟨rfl,rfl,rfl,rfl,le_refl _,fun _ => active⟩

theorem obeys_set_pinned (id : FactId) (pinned : Bool) : Obeys rule (set_pinned id pinned) :=
  obeys_updateRow fun f _ => rule.carried f _ ⟨rfl,rfl,rfl,rfl,le_refl _,fun active => active⟩

theorem obeys_increment_access (id : FactId) (now : DateTime) : Obeys rule (increment_access id now) :=
  obeys_updateRow fun f _ => rule.carried f _ ⟨rfl,rfl,rfl,rfl,le_of_lt (Int.lt_succ _),fun active => active⟩

theorem obeys_update_base_importance {id : FactId} {importance : SqlReal} (sets : rule.Sets id importance) :
    Obeys rule (update_base_importance id (.num importance)) := obeys_updateRow sets

theorem obeys_update_importance_score (id : FactId) (score : F64) : Obeys rule (update_importance_score id score) := by
  cases score with
  | nan =>
    refine obeys_bind obeys_query fun found => ?_
    cases found <;> exact obeys_throw _
  | num importance => exact obeys_updateRow fun f _ => rule.carried f _ ⟨rfl,rfl,rfl,rfl,le_refl _,fun active => active⟩

theorem carried_setScore (scores : List (FactId × F64)) (f : Fact) : f.Carried (setScore scores f) := by
  unfold setScore
  split
  · exact ⟨rfl,rfl,rfl,rfl,le_refl _,fun active => active⟩
  · exact Fact.Carried.refl f

theorem obeys_update_importance_scores_bulk (scores : List (FactId × F64)) : Obeys rule (update_importance_scores_bulk self scores) := by
  unfold update_importance_scores_bulk
  split
  · exact obeys_throw _
  · exact obeys_execute fun t => RowRule.of_update rfl fun f _ here => rule.carried f _ (carried_setScore scores f) here

theorem obeys_merge_metadata {id : FactId} {fields : List (String × Json)} (merges : rule.Merges id fields) :
    Obeys rule (merge_metadata id (.obj fields)) := by
  refine obeys_bind ?_ fun _ => obeys_updateRow merges
  intro s u t committed holds
  rw [(commits_requireMetadata.mp committed).2]
  exact holds

theorem obeys_mark_dream_cycled {ids : List FactId} {cycle_id : Nat} {now : DateTime}
    (merges : ∀ id ∈ ids, rule.Merges id [("dream_cycle",.obj [("cycle_id",.int cycle_id),("cycled_at",.str now.to_rfc3339)])]) :
    Obeys rule (mark_dream_cycled ids cycle_id now) :=
  obeys_foldlM_mem (fun _ id listed => obeys_merge_metadata (merges id listed)) ()

theorem obeys_stamp_surfaced (fact_ids : List FactId) (now : DateTime) : Obeys rule (stamp_surfaced fact_ids now) := by
  unfold stamp_surfaced
  split
  · exact obeys_pure _
  · refine obeys_bind (obeys_execute fun t => ?_) fun _ => obeys_bind obeys_query fun _ => obeys_pure _
    exact RowRule.of_update rfl fun f _ here => rule.carried f _ ⟨rfl,rfl,rfl,rfl,le_refl _,fun active => active⟩ here

theorem obeys_reinforce {fact : NewFact} {id : FactId} (raises : ∀ importance, fact.base_importance = .num importance → rule.Raises importance) :
    Obeys rule (reinforce fact id) := by
  unfold reinforce
  split
  · exact obeys_throw _
  · rename_i importance given
    refine obeys_execute fun t => RowRule.of_update rfl fun f _ here => ?_
    refine rule.carried { f with base_importance := max f.base_importance importance } _ ?_ (raises importance given f here)
    exact ⟨rfl,rfl,rfl,rfl,le_of_lt (Int.lt_succ _),fun active => active⟩

theorem obeys_insert_or_reinforce {fact : NewFact} (takes : rule.Takes self fact) : Obeys rule (insert_or_reinforce self fact) := by
  refine obeys_bind obeys_require fun _ => obeys_bind obeys_query fun found => ?_
  cases found with
  | some id => exact obeys_bind (obeys_reinforce takes.2) fun _ => obeys_pure _
  | none => exact obeys_bind (obeys_insert takes.1) fun _ => obeys_pure _

theorem obeys_hard_delete_ids (ids : List FactId) : Obeys rule (hard_delete_ids ids) := by
  unfold hard_delete_ids
  split
  · exact obeys_pure _
  · refine obeys_bind obeys_require fun _ => obeys_bind obeys_query fun _ => obeys_bind (obeys_execute fun t holds f member => ?_) fun _ => obeys_pure _
    exact holds f (Table.mem_delete.mp member).1

end FactStore

/-! ## Statements on the other tables -/

section beside
variable {rule : RowRule} (self : SqliteBackend)

theorem EventStore.obeys_insert (event : NewEvent) : Obeys rule (EventStore.insert self event) :=
  obeys_bind obeys_query fun _ => obeys_bind (obeys_beside fun _ => rfl) fun _ => obeys_pure _

theorem EdgeStore.obeys_insert (edge : NewEdge) : Obeys rule (EdgeStore.insert edge) := by
  unfold EdgeStore.insert
  split
  · exact obeys_throw _
  · exact obeys_bind obeys_query fun _ => obeys_bind (obeys_beside fun _ => rfl) fun _ => obeys_pure _

theorem EdgeStore.obeys_expire (id : Int) (now : DateTime) : Obeys rule (EdgeStore.expire id now) :=
  obeys_bind obeys_query fun _ => obeys_bind (obeys_beside fun _ => rfl) fun _ => obeys_require

theorem EdgeStore.obeys_expire_by_fact (fact_id : FactId) (now : DateTime) : Obeys rule (EdgeStore.expire_by_fact fact_id now) :=
  obeys_bind obeys_query fun _ => obeys_bind (obeys_beside fun _ => rfl) fun _ => obeys_pure _

theorem EdgeStore.obeys_hard_delete_by_facts (fact_ids : List FactId) : Obeys rule (EdgeStore.hard_delete_by_facts fact_ids) :=
  obeys_bind obeys_query fun _ => obeys_bind (obeys_beside fun _ => rfl) fun _ => obeys_pure _

theorem EdgeStore.obeys_hard_delete_incident (fact_ids : List FactId) : Obeys rule (EdgeStore.hard_delete_incident_to_facts fact_ids) :=
  obeys_bind obeys_query fun _ => obeys_bind (obeys_beside fun _ => rfl) fun _ => obeys_pure _

theorem ScopeStore.obeys_insert (parent_id : Int) (label : String) (depth : Int) : Obeys rule (ScopeStore.insert parent_id label depth) :=
  obeys_bind obeys_query fun _ => obeys_bind (obeys_beside fun _ => rfl) fun _ => obeys_pure _

theorem ScopeStore.obeys_ensure_path (path : String) : Obeys rule (ScopeStore.ensure_path path) :=
  obeys_of_leaves (leaves_ensure_path (fun _ _ => rfl) path)

theorem LineageStore.obeys_insert (record : NewLineageRecord) (provenance : PromotionProvenance) :
    Obeys rule (LineageStore.insert record provenance) :=
  obeys_of_leaves (LineageStore.leaves_insert Tables.facts (fun _ _ => rfl) record provenance)

theorem LineageStore.obeys_insert_raw (entry : LineageRow) : Obeys rule (LineageStore.insert_raw entry) :=
  obeys_bind obeys_query fun _ => obeys_bind obeys_require fun _ => obeys_beside fun _ => rfl

theorem LineageStore.obeys_delete (wisdom_fact_id : FactId) : Obeys rule (LineageStore.delete wisdom_fact_id) :=
  obeys_bind obeys_query fun _ => obeys_bind (obeys_beside fun _ => rfl) fun _ => obeys_pure _

theorem SummaryStore.obeys_insert (summary : NewSummary) : Obeys rule (SummaryStore.insert self summary) :=
  obeys_bind obeys_require fun _ => obeys_bind obeys_query fun _ => obeys_bind (obeys_beside fun _ => rfl) fun _ => obeys_pure _

theorem Config.obeys_set_config (key value : String) : Obeys rule (Config.set_config key value) := obeys_beside fun _ => rfl

theorem EmbeddingMeta.obeys_record_if_absent (candidate : EmbeddingFingerprint) (expected_dim : Nat) :
    Obeys rule (EmbeddingMeta.record_if_absent candidate expected_dim) :=
  obeys_of_leaves (EmbeddingMeta.leaves_record_if_absent Tables.facts (fun _ _ => rfl) candidate expected_dim)

theorem EmbeddingMeta.obeys_require_present : Obeys rule EmbeddingMeta.require_present :=
  obeys_of_leaves (EmbeddingMeta.leaves_require_present Tables.facts)

theorem ActivityStore.obeys_insert_or_dedup (libraries : ActivityLibraries) (activity : NewActivity) (dedup_window_secs : Int) :
    Obeys rule (ActivityStore.insert_or_dedup libraries activity dedup_window_secs) := by
  refine obeys_bind obeys_query fun found => ?_
  cases found with
  | some old => exact obeys_bind (obeys_beside fun _ => rfl) fun _ => obeys_pure _
  | none => exact obeys_bind obeys_query fun _ => obeys_bind (obeys_beside fun _ => rfl) fun _ => obeys_pure _

theorem ActivityStore.obeys_update_status (id : Int) (status : ActivityStatus) (promoted_fact_id : Option FactId) :
    Obeys rule (ActivityStore.update_status id status promoted_fact_id) :=
  obeys_bind obeys_query fun _ => obeys_bind (obeys_beside fun _ => rfl) fun _ => obeys_require

end beside

/-! ## Transactions -/

namespace Ingest
variable {self : SqliteBackend} {rule : RowRule}

theorem obeys_insert_fact_atomic {fact : NewFact} {fingerprint : EmbeddingFingerprint} {expected_dim : Nat} (admits : rule.Admits self fact) :
    Obeys rule (insert_fact_atomic self fact fingerprint expected_dim) :=
  obeys_bind (EmbeddingMeta.obeys_record_if_absent _ _) fun _ => FactStore.obeys_insert admits

theorem obeys_resolveEntry (acc : ResolvedScopes) (path : Option String) : Obeys rule (resolveEntry acc path) := by
  cases path with
  | none => exact obeys_pure _
  | some path =>
    rw [resolveEntry]
    split
    · exact obeys_pure _
    · exact obeys_bind (ScopeStore.obeys_ensure_path path) fun _ => obeys_pure _

/-- The scope of an entry is filled in before it is inserted. -/
theorem obeys_insert_facts_batch_atomic {facts : List NewFact} {scope_paths : List (Option String)} {fingerprint : EmbeddingFingerprint}
    {expected_dim : Nat} (admits : ∀ fact ∈ facts, ∀ scope_id, rule.Admits self { fact with scope_id := scope_id }) :
    Obeys rule (insert_facts_batch_atomic self facts scope_paths fingerprint expected_dim) := by
  refine obeys_bind obeys_require fun _ => obeys_bind (EmbeddingMeta.obeys_record_if_absent _ _) fun _ => ?_
  refine obeys_bind (obeys_foldlM obeys_resolveEntry _ _) fun resolved => obeys_bind ?_ fun _ => obeys_pure _
  refine obeys_foldlM_mem (fun _ entry listed => obeys_bind (FactStore.obeys_insert ?_) fun _ => obeys_pure _) _
  exact admits entry.1 (List.of_mem_zip listed).1 entry.2

theorem obeys_promote_atomic {fact : NewFact} {scope_path : Option String} {source_fact_ids : List FactId} {provenance : PromotionProvenance}
    (admits : ∀ scope_id, rule.Admits self { fact with scope_id := scope_id }) :
    Obeys rule (promote_atomic self fact scope_path source_fact_ids provenance) := by
  refine obeys_bind EmbeddingMeta.obeys_require_present fun _ => obeys_bind ?_ fun scope => ?_
  · cases scope_path with
    | none => exact obeys_pure _
    | some path => exact obeys_bind (ScopeStore.obeys_ensure_path path) fun _ => obeys_pure _
  · exact obeys_bind (FactStore.obeys_insert (admits scope.1)) fun _ => obeys_bind (LineageStore.obeys_insert _ _) fun _ => obeys_pure _

end Ingest

namespace Resolve
variable {self : SqliteBackend} {rule : RowRule}

theorem obeys_cascade_expire (old_id : FactId) (now : DateTime) : Obeys rule (cascade_expire old_id now) :=
  obeys_bind (FactStore.obeys_expire_and_invalidate _ _) fun _ => obeys_void (EdgeStore.obeys_expire_by_fact _ _)

theorem obeys_insertLinked {old_id : FactId} {new_fact : NewFact} {relation : String} {weight : F64} {now : DateTime}
    (admits : rule.Admits self new_fact) : Obeys rule (insertLinked self old_id new_fact relation weight now) :=
  obeys_bind (FactStore.obeys_insert admits) fun _ => obeys_bind (EdgeStore.obeys_insert _) fun _ => obeys_pure _

/-- The new fact matters where the decision adds it. -/
theorem obeys_resolve_conflict_atomic {decision : CrudDecision} {old_id : FactId} {new_fact : NewFact} {relation : String} {weight : F64}
    {now : DateTime} (admits : decision = .Add ∨ decision = .Update → rule.Admits self new_fact) :
    Obeys rule (resolve_conflict_atomic self decision old_id new_fact relation weight now) := by
  cases decision with
  | Noop => exact obeys_pure _
  | Add => exact obeys_bind obeys_query fun _ => obeys_bind obeys_require fun _ => obeys_insertLinked (admits (.inl rfl))
  | Update => exact obeys_bind (obeys_cascade_expire _ _) fun _ => obeys_insertLinked (admits (.inr rfl))
  | Delete => exact obeys_bind (obeys_cascade_expire _ _) fun _ => obeys_pure _

end Resolve

theorem SessionEdges.obeys_insert {rule : RowRule} (fact_ids : List FactId) (relation : String) (weight : F64) (scope_id : Int) (now : DateTime) :
    Obeys rule (SessionEdges.insert_cosession_edges_atomic fact_ids relation weight scope_id now) := by
  refine obeys_bind obeys_query fun existing => obeys_foldlM (fun new_edges pair => ?_) _ _
  split
  · exact obeys_pure _
  · exact obeys_bind (EdgeStore.obeys_insert _) fun _ => obeys_pure _

theorem Forget.obeys_prune_atomic {rule : RowRule} (self : SqliteBackend) (scored : List (FactId × F64)) (to_expire : List FactId) (now : DateTime) :
    Obeys rule (Forget.prune_atomic self scored to_expire now) := by
  refine obeys_bind (FactStore.obeys_update_importance_scores_bulk _) fun _ => obeys_bind ?_ fun _ => obeys_pure _
  exact obeys_foldlM (fun _ id => obeys_bind (FactStore.obeys_expire id now) fun _ => obeys_void (EdgeStore.obeys_expire_by_fact _ _)) _ _

namespace Bootstrap
variable {self : SqliteBackend} {rule : RowRule}

theorem obeys_ingestMarked {marker : Option NewEvent} {facts : List NewFact} {fingerprint : EmbeddingFingerprint} {expected_dim : Nat}
    (takes : ∀ fact ∈ facts, ∀ marker_id, rule.Takes self (linked marker_id fact)) :
    Obeys rule (ingestMarked self marker facts fingerprint expected_dim) := by
  refine obeys_bind ?_ fun marker_id => obeys_bind ?_ fun out => obeys_bind (obeys_guarded ?_) fun _ => obeys_pure _
  · cases marker with
    | some event => exact obeys_bind (EventStore.obeys_insert self event) fun _ => obeys_pure _
    | none => exact obeys_pure _
  · exact obeys_foldlM_mem (fun _ fact listed => obeys_bind (FactStore.obeys_insert_or_reinforce (takes fact listed marker_id)) fun _ => obeys_pure _) _
  · exact obeys_void (EmbeddingMeta.obeys_record_if_absent _ _)

/-- Each fact of a batch, linked to the marker, is inserted or reinforces another. -/
theorem obeys_ingest_bootstrap_batch_atomic {marker : Option NewEvent} {skip_if_present : Option EventFilter} {facts : List NewFact}
    {fingerprint : EmbeddingFingerprint} {expected_dim : Nat} (takes : ∀ fact ∈ facts, ∀ marker_id, rule.Takes self (linked marker_id fact)) :
    Obeys rule (ingest_bootstrap_batch_atomic self marker skip_if_present facts fingerprint expected_dim) := by
  cases skip_if_present with
  | none => exact obeys_ingestMarked takes
  | some filter =>
    refine obeys_bind (obeys_bind obeys_require fun _ => obeys_query) fun present => ?_
    split
    · exact obeys_pure _
    · exact obeys_ingestMarked takes

end Bootstrap

namespace Consolidate
variable {self : SqliteBackend} {rule : RowRule}

theorem obeys_applyExpiry (survivor_live : FactId → Bool) (now : DateTime) (acc : DedupApplied) (e : Expiry) :
    Obeys rule (applyExpiry survivor_live now acc e) := by
  unfold applyExpiry
  split
  · refine obeys_bind (obeys_attempt (FactStore.obeys_expire _ _)) fun r => ?_
    split
    · exact obeys_bind (EdgeStore.obeys_expire_by_fact _ _) fun _ => obeys_pure _
    · exact obeys_pure _
    · exact obeys_throw _
  · exact obeys_pure _

theorem obeys_write_summaries (plan : ConsolidationPlan) : Obeys rule (write_summaries self plan) := by
  have leaves : Leaves Tables.facts (write_summaries self plan) :=
    fun s u t committed => (Prod.mk.inj (leaves_write_summaries plan s u t committed)).2
  exact obeys_of_leaves leaves

/-- A plan that rewrites no base importance. -/
theorem obeys_apply_plan {plan : ConsolidationPlan} (updates : plan.dedup.importance_updates = []) : Obeys rule (apply_plan self plan) := by
  have dedup : Obeys rule (apply_dedup self plan.dedup plan.now) := by
    unfold apply_dedup
    rw [updates]
    refine obeys_bind (obeys_pure _) fun _ => obeys_bind (FactStore.obeys_update_importance_scores_bulk _) fun _ => ?_
    exact obeys_bind obeys_query fun survivor_live => obeys_foldlM (obeys_applyExpiry survivor_live _) _ _
  refine obeys_bind dedup fun applied => obeys_bind (obeys_guarded (obeys_write_summaries plan)) fun _ => ?_
  exact obeys_bind (obeys_guarded (Config.obeys_set_config _ _)) fun _ => obeys_pure _

end Consolidate

theorem Archive.obeys_commit_archive_atomic {rule : RowRule} (entry : NewArchiveManifest) (fact_ids : List FactId) :
    Obeys rule (Archive.commit_archive_atomic entry fact_ids) := by
  refine obeys_bind ?_ fun _ => obeys_bind (EdgeStore.obeys_hard_delete_incident _) fun _ => obeys_void (FactStore.obeys_hard_delete_ids _)
  exact obeys_bind obeys_query fun _ => obeys_bind (obeys_beside fun _ => rfl) fun _ => obeys_pure _

/-- What a delta asks of a rule: its new fact is admitted, the importance it sets and
    the keys it merges are allowed, and so is the copy of the active fact it promotes,
    whose importance the deltas ahead of it may have moved. -/
def CycleDelta.Fits (rule : RowRule) (self : SqliteBackend) (now : DateTime) (t : Tables) : CycleDelta → Prop
  | .AddFact nf => rule.Admits self nf
  | .AdjustScore fact_id adjustment => ∀ current, rule.Sets fact_id (Cycle.adjusted self adjustment current)
  | .Quarantine fact_id reason => rule.Merges fact_id [("quarantine",Json.object [("reason",.str reason),("at",.str now.to_rfc3339)])]
  | .Promote fact_id provenance => ∀ f ∈ t.facts.rows, f.id = fact_id → f.t_expired = none → ∀ importance,
      rule.holds { f with base_importance := importance } →
        rule.Admits self (Cycle.promotedCopy { f with base_importance := importance } provenance now)
  | .TagOutcome _ _ => True
  | .Supersede _ _ => True
  | .Synthesize _ nf => rule.Admits self nf

/-- The keys that the end of a report merges into the facts it marks. -/
def cycleMark (cycle_id : Nat) (now : DateTime) : List (String × Json) :=
  [("dream_cycle",.obj [("cycle_id",.int cycle_id),("cycled_at",.str now.to_rfc3339)])]

namespace Cycle
variable {self : SqliteBackend} {rule : RowRule}

theorem obeys_supersede (now : DateTime) (new_id old_id scope_id : Int) (pass : ApplyPass) :
    Obeys rule (supersede now new_id old_id scope_id pass) :=
  obeys_bind (FactStore.obeys_expire _ _) fun _ => obeys_bind (EdgeStore.obeys_insert _) fun _ => obeys_pure _

theorem obeys_synthesizeSource (now : DateTime) (synth_id scope_id : Int) (acc : ApplyPass × Option (DateTime × DateTime)) (src : FactId) :
    Obeys rule (synthesizeSource self now synth_id scope_id acc src) :=
  obeys_bind (FactStore.obeys_get _) fun _ => obeys_bind (obeys_supersede _ _ _ _ _) fun _ => obeys_pure _

/-- One delta behind the ones that were applied. The source of a promotion is the row
    that validation saw, but for its importance. -/
theorem holds_applyDelta {db m t : Db} {expired gone : List FactId} {fresh : List (FactId × Json)} {tags : Nat} {delta : CycleDelta}
    {now : DateTime} {pass pass' : ApplyPass} (behind : Behind db m expired gone fresh tags) (valid : Valid self db expired delta)
    (fits : delta.Fits rule self now db.toTables) (committed : Commits (applyDelta self now pass delta) m pass' t) (holds : rule.Of m.toTables) :
    rule.Of t.toTables := by
  cases delta with
  | AddFact nf => exact obeys_bind (FactStore.obeys_insert fits) (fun _ => obeys_pure _) m pass' t committed holds
  | AdjustScore fact_id adjustment =>
    refine obeys_bind (FactStore.obeys_get _) (fun current => ?_) m pass' t committed holds
    exact obeys_bind (FactStore.obeys_update_base_importance (fits _)) fun _ => obeys_pure _
  | Quarantine fact_id reason =>
    refine obeys_bind (FactStore.obeys_expire _ _) (fun _ => ?_) m pass' t committed holds
    exact obeys_bind (FactStore.obeys_merge_metadata fits) fun _ => obeys_pure _
  | Promote fact_id provenance =>
    obtain ⟨source,m₁,got,rest⟩ := commits_bind.mp committed
    obtain ⟨found,_,rfl⟩ := FactStore.commits_get.mp got
    obtain ⟨there,named⟩ := Table.find_eq_some.mp found
    obtain ⟨⟨f,member,same,_,active⟩,away⟩ := valid
    obtain ⟨f',held,keeps⟩ := behind.evolved.kept f member
    obtain rfl : f' = source := m₁.facts.key_unique held there ((keeps.id.trans same).trans named.symm)
    have untouched := keeps.untouched fun listed => away (same ▸ behind.noted _ listed)
    have copied : rule.Admits self (promotedCopy f' provenance now) := by
      have here := holds f' there
      rw [untouched] at here ⊢
      exact fits f member same active f'.base_importance here
    refine obeys_bind obeys_require (fun _ => obeys_bind EmbeddingMeta.obeys_require_present fun _ => ?_) m₁ pass' t rest holds
    exact obeys_bind (FactStore.obeys_insert copied) fun _ => obeys_bind (LineageStore.obeys_insert _ _) fun _ => obeys_pure _
  | TagOutcome fact_id outcome => exact obeys_bind (EventStore.obeys_insert self _) (fun _ => obeys_pure _) m pass' t committed holds
  | Supersede old_id new_id =>
    refine obeys_bind (FactStore.obeys_get _) (fun _ => ?_) m pass' t committed holds
    exact obeys_bind (obeys_supersede _ _ _ _ _) fun _ => obeys_pure _
  | Synthesize sources nf =>
    refine obeys_bind (FactStore.obeys_insert fits) (fun _ => ?_) m pass' t committed holds
    refine obeys_bind (obeys_foldlM (obeys_synthesizeSource _ _ _) _ _) fun _ => ?_
    exact obeys_bind (LineageStore.obeys_insert _ _) fun _ => obeys_pure _

/-- The pass over validated deltas. -/
theorem holds_deltas {db db' m t : Db} {expired expired' gone : List FactId} {fresh : List (FactId × Json)} {tags : Nat} {now : DateTime}
    {deltas : List CycleDelta} {pass pass' : ApplyPass} (behind : Behind db m expired gone fresh tags)
    (validated : Commits (deltas.foldlM (validateDelta self) expired) db expired' db')
    (fits : ∀ delta ∈ deltas, delta.Fits rule self now db.toTables)
    (committed : Commits (deltas.foldlM (applyDelta self now) pass) m pass' t) (holds : rule.Of m.toTables) : rule.Of t.toTables := by
  induction deltas generalizing m expired gone fresh tags pass with
  | nil =>
    obtain ⟨_,rfl⟩ := commits_pure.mp committed
    exact holds
  | cons delta rest ih =>
    rw [List.foldlM_cons] at validated committed
    obtain ⟨_,_,checked,laterChecks⟩ := commits_bind.mp validated
    obtain ⟨_,_,applied,laterPass⟩ := commits_bind.mp committed
    obtain ⟨rfl,valid,grown⟩ := valid_delta checked
    obtain ⟨here,later⟩ := List.forall_mem_cons.mp fits
    obtain ⟨_,evolved,_⟩ := evolved_delta behind.evolved.seq valid.gone_le applied
    exact ih (behind.step evolved grown) laterChecks later laterPass (holds_applyDelta behind valid here applied holds)

/-- A report whose deltas fit a rule keeps it. -/
theorem holds_report {codec : HistoryCodec} {report : CycleReport} {now : DateTime} {s t : Db} {pass : ApplyPass}
    (fits : ∀ delta ∈ report.deltas, delta.Fits rule self now s.toTables)
    (marks : ∀ id, rule.Merges id (cycleMark report.metadata.cycle_id now))
    (committed : Commits (apply_cycle_deltas_atomic self codec report now) s pass t) (holds : rule.Of s.toTables) : rule.Of t.toTables := by
  obtain ⟨m,m',m'',validated,_,applied,marked,dated,appended⟩ := commits_report.mp committed
  obtain ⟨⟨expired,checked⟩,_⟩ := valid_report validated
  have after : rule.Of m.toTables := holds_deltas (Behind.start s) checked fits applied holds
  have stamped : rule.Of m'.toTables := FactStore.obeys_mark_dream_cycled (fun id _ => marks id) m () m' marked after
  refine RowRule.of_facts ?_ stamped
  rw [leaves_append_cycle_history _ _ m'' () t appended,commits_execute.mp dated]

end Cycle
end MemoryEngine
