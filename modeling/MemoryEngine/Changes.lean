import MemoryEngine.StoragePort
import MemoryEngine.TableAges
import Mathlib.Logic.Relation

/-! What one statement does to the tables. Every transaction but those of a
reconstruction commits a sequence of such changes, so a relation that each of them
respects holds between the first and the last state of a transaction. -/

namespace MemoryEngine
open Time KeyedTable Transaction

/-- What a rewritten fact keeps: its vector, its content and, once expired, its expiry. -/
structure Fact.Kept (f f' : Fact) : Prop where
  vector : f'.embedding = f.embedding
  content : f'.content = f.content
  expired : f'.t_expired = none → f.t_expired = none

/-- What a rewritten edge keeps. -/
structure Edge.Kept (e e' : Edge) : Prop where
  snapshot : e'.snapshot = e.snapshot
  expired : e'.t_expired = none → e.t_expired = none

theorem Fact.Kept.refl (f : Fact) : f.Kept f := ⟨rfl,rfl,fun active => active⟩

theorem Edge.Kept.refl (e : Edge) : e.Kept e := ⟨rfl,fun active => active⟩

/-- The tables that hold neither events nor facts nor edges nor vectors nor scopes nor the
    manifest. -/
structure Tables.Beside (t t' : Tables) : Prop where
  events : t'.events = t.events
  facts : t'.facts = t.facts
  edges : t'.edges = t.edges
  summaries : t'.summaries = t.summaries
  scopes : t'.scopes = t.scopes
  manifest : t'.archive_manifest = t.archive_manifest
  spaces : t'.embedding_spaces = t.embedding_spaces
  vectors : t'.fact_vectors = t.fact_vectors

/-- One change to the tables, by a handle of the given dimension, which records an
    identity of the dimension it expects only. -/
inductive Change (embed_dim expected_dim : Nat) : Tables → Tables → Prop where
  | insert_event {t : Tables} (row : Int → Event) (tagged : ∀ id, Row.key (row id) = id) :
      Change embed_dim expected_dim t { t with events := t.events.insert row tagged }
  | insert_fact {t : Tables} (row : Int → Fact) (tagged : ∀ id, Row.key (row id) = id)
      (sized : ∀ id, (row id).embedding.length = embed_dim) : Change embed_dim expected_dim t { t with facts := t.facts.insert row tagged }
  | update_facts {t : Tables} (sel : Fact → Bool) (change : Fact → Fact) (same : ∀ f, (change f).id = f.id)
      (kept : ∀ f, sel f = true → f.Kept (change f)) : Change embed_dim expected_dim t { t with facts := t.facts.update sel change same }
  | delete_facts {t : Tables} (sel : Fact → Bool) : Change embed_dim expected_dim t (t.deleteFacts sel)
  | insert_edge {t : Tables} (row : Int → Edge) (tagged : ∀ id, Row.key (row id) = id) :
      Change embed_dim expected_dim t { t with edges := t.edges.insert row tagged }
  | expire_edges {t : Tables} (sel : Edge → Bool) (now : DateTime) : Change embed_dim expected_dim t (EdgeStore.expireRows t sel now)
  | delete_edges {t : Tables} (sel : Edge → Bool) : Change embed_dim expected_dim t { t with edges := t.edges.delete sel }
  | insert_summary {t : Tables} (row : Int → Summary) (tagged : ∀ id, Row.key (row id) = id)
      (sized : ∀ id, (row id).embedding.length = embed_dim) : Change embed_dim expected_dim t { t with summaries := t.summaries.insert row tagged }
  | delete_summaries {t : Tables} (sel : Summary → Bool) : Change embed_dim expected_dim t { t with summaries := t.summaries.delete sel }
  | insert_scope {t : Tables} (row : Int → ScopeNode) (tagged : ∀ id, Row.key (row id) = id) :
      Change embed_dim expected_dim t { t with scopes := t.scopes.insert row tagged }
  | manifest {t : Tables} (entries : Table ArchiveManifestEntry) : Change embed_dim expected_dim t { t with archive_manifest := entries }
  | stamp {t : Tables} (fingerprint : EmbeddingFingerprint) (fresh : t.activeSpace = none)
      (sized : fingerprint.dim = expected_dim) :
      Change embed_dim expected_dim t { t with embedding_spaces := t.embedding_spaces ++ [⟨EmbeddingSpace.DEFAULT_NAME,fingerprint,.Active⟩] }
  | beside {t t' : Tables} (same : t.Beside t') : Change embed_dim expected_dim t t'

/-- A sequence of changes. -/
abbrev Changes (embed_dim expected_dim : Nat) : Tables → Tables → Prop := Relation.ReflTransGen (Change embed_dim expected_dim)

/-- A relation that every change respects holds along a sequence of them. -/
theorem Changes.respects {embed_dim expected_dim : Nat} {R : Tables → Tables → Prop} (refl : ∀ t, R t t)
    (trans : ∀ s m t, R s m → R m t → R s t) (one : ∀ s t, Change embed_dim expected_dim s t → R s t) {s t : Tables}
    (changes : Changes embed_dim expected_dim s t) : R s t := by
  induction changes with
  | refl => exact refl s
  | tail before change ih => exact trans _ _ _ ih (one _ _ change)

/-- Every commit is a sequence of changes. -/
abbrev Makes {α : Type} (embed_dim expected_dim : Nat) (x : Sql α) : Prop := Keeps (fun s t : Db => Changes embed_dim expected_dim s.toTables t.toTables) x

section combinators
variable {α β : Type} {embed_dim expected_dim : Nat}

theorem makes_execute {change : Tables → Tables} (one : ∀ t, Change embed_dim expected_dim t (change t)) : Makes embed_dim expected_dim (execute change) := by
  intro s u t committed
  rw [commits_execute.mp committed]
  exact .single (one s.toTables)

theorem makes_unchanged {x : Sql α} (same : ∀ s a t, Commits x s a t → t = s) : Makes embed_dim expected_dim x := by
  intro s a t committed
  rw [same s a t committed]

theorem makes_query {read : Tables → α} : Makes embed_dim expected_dim (query read) :=
  makes_unchanged fun _ _ _ committed => (commits_query.mp committed).2

theorem makes_require {p : Prop} [Decidable p] {error : MemoryError} : Makes embed_dim expected_dim (require p error) :=
  makes_unchanged fun _ _ _ committed => (commits_require.mp committed).2

theorem makes_lift (x : Except MemoryError α) : Makes embed_dim expected_dim (liftM x) :=
  makes_unchanged fun _ _ _ committed => (commits_lift.mp committed).2

theorem makes_pure (a : α) : Makes embed_dim expected_dim (pure a) := makes_unchanged fun _ _ _ committed => (commits_pure.mp committed).2

theorem makes_throw (e : MemoryError) : Makes embed_dim expected_dim (throw e : Sql α) := Keeps.throw e

theorem makes_bind {x : Sql α} {f : α → Sql β} (first : Makes embed_dim expected_dim x) (rest : ∀ a, Makes embed_dim expected_dim (f a)) :
    Makes embed_dim expected_dim (x >>= f) := by
  refine Keeps.bind ?_ first rest
  exact fun s m t left right => left.trans right

theorem makes_guarded {p : Prop} [Decidable p] {x : Sql Unit} (makes : Makes embed_dim expected_dim x) : Makes embed_dim expected_dim (guarded p x) := by
  refine Keeps.guarded ?_ makes
  exact fun s => .refl

theorem makes_attempt {x : Sql α} (makes : Makes embed_dim expected_dim x) : Makes embed_dim expected_dim (attempt x) := by
  refine Keeps.attempt ?_ makes
  exact fun s => .refl

theorem makes_foldlM_mem {f : β → α → Sql β} {items : List α} (round : ∀ b, ∀ a ∈ items, Makes embed_dim expected_dim (f b a)) (b : β) :
    Makes embed_dim expected_dim (items.foldlM f b) := by
  refine Keeps.foldlM_mem ?_ ?_ round b
  · exact fun s => .refl
  · exact fun s m t left right => left.trans right

theorem makes_foldlM {f : β → α → Sql β} (round : ∀ b a, Makes embed_dim expected_dim (f b a)) (items : List α) (b : β) :
    Makes embed_dim expected_dim (items.foldlM f b) :=
  makes_foldlM_mem (fun b a _ => round b a) b

theorem makes_beside {change : Tables → Tables} (same : ∀ t : Tables, t.Beside (change t)) : Makes embed_dim expected_dim (execute change) :=
  makes_execute fun t => .beside (same t)

/-- Drop the value of a call. -/
theorem makes_void {x : Sql α} (makes : Makes embed_dim expected_dim x) : Makes embed_dim expected_dim (do let _ ← x) := makes_bind makes fun _ => makes_pure _

end combinators

namespace FactStore
variable (self : SqliteBackend) {expected_dim : Nat}

theorem makes_insert (fact : NewFact) : Makes self.embed_dim expected_dim (insert self fact) := by
  intro s id t committed
  obtain ⟨sized,importance,_,_,written⟩ := commits_insert.mp committed
  rw [written]
  exact .single (.insert_fact _ _ fun _ => sized)

theorem makes_get {embed_dim : Nat} (id : FactId) : Makes embed_dim expected_dim (get self id) :=
  makes_unchanged fun _ _ _ committed => (commits_get.mp committed).2.2

variable {self} {embed_dim expected_dim : Nat}

theorem makes_updateActive {id : FactId} {change : Fact → Fact} {same : ∀ f, (change f).id = f.id}
    (kept : ∀ f : Fact, f.t_expired = none → f.Kept (change f)) : Makes embed_dim expected_dim (updateActive id change same) := by
  intro s u t committed
  rw [(commits_updateActive.mp committed).2]
  refine .single (.update_facts _ _ _ fun f selected => kept f ?_)
  simp only [Bool.and_eq_true,Option.isNone_iff_eq_none] at selected
  exact selected.2

theorem makes_updateRow {id : FactId} {change : Fact → Fact} {same : ∀ f, (change f).id = f.id} (kept : ∀ f : Fact, f.Kept (change f)) :
    Makes embed_dim expected_dim (updateRow id change same) := by
  intro s u t committed
  rw [(commits_updateRow.mp committed).2]
  exact .single (.update_facts _ _ _ fun f _ => kept f)

theorem makes_expire (id : FactId) (now : DateTime) : Makes embed_dim expected_dim (expire id now) :=
  makes_updateActive fun _ active => ⟨rfl,rfl,fun _ => active⟩

theorem makes_expire_and_invalidate (id : FactId) (now : DateTime) : Makes embed_dim expected_dim (expire_and_invalidate id now) :=
  makes_updateActive fun _ active => ⟨rfl,rfl,fun _ => active⟩

theorem makes_set_pinned (id : FactId) (pinned : Bool) : Makes embed_dim expected_dim (set_pinned id pinned) :=
  makes_updateRow fun _ => ⟨rfl,rfl,fun active => active⟩

theorem makes_increment_access (id : FactId) (now : DateTime) : Makes embed_dim expected_dim (increment_access id now) :=
  makes_updateRow fun _ => ⟨rfl,rfl,fun active => active⟩

theorem makes_update_base_importance (id : FactId) (base_importance : F64) : Makes embed_dim expected_dim (update_base_importance id base_importance) := by
  cases base_importance with
  | nan =>
    refine makes_bind makes_query fun found => ?_
    cases found <;> exact makes_throw _
  | num importance => exact makes_updateRow fun _ => ⟨rfl,rfl,fun active => active⟩

theorem makes_update_importance_score (id : FactId) (score : F64) : Makes embed_dim expected_dim (update_importance_score id score) := by
  cases score with
  | nan =>
    refine makes_bind makes_query fun found => ?_
    cases found <;> exact makes_throw _
  | num importance => exact makes_updateRow fun _ => ⟨rfl,rfl,fun active => active⟩

theorem setScore_kept (scores : List (FactId × F64)) (f : Fact) : f.Kept (setScore scores f) := by
  unfold setScore
  split
  · exact ⟨rfl,rfl,fun active => active⟩
  · exact Fact.Kept.refl f

theorem makes_update_importance_scores_bulk (scores : List (FactId × F64)) :
    Makes embed_dim expected_dim (update_importance_scores_bulk self scores) := by
  unfold update_importance_scores_bulk
  split
  · exact makes_throw _
  · exact makes_execute fun _ => .update_facts _ _ _ fun f _ => setScore_kept scores f

theorem makes_merge_metadata (id : FactId) (patch : Json) : Makes embed_dim expected_dim (merge_metadata id patch) := by
  unfold merge_metadata
  split
  · refine makes_bind ?_ fun _ => makes_updateRow fun _ => ⟨rfl,rfl,fun active => active⟩
    exact makes_unchanged fun _ _ _ committed => (commits_requireMetadata.mp committed).2
  · exact makes_throw _

theorem makes_mark_dream_cycled (ids : List FactId) (cycle_id : Nat) (now : DateTime) :
    Makes embed_dim expected_dim (mark_dream_cycled ids cycle_id now) :=
  makes_foldlM (fun _ id => makes_merge_metadata id _) ids ()

theorem makes_stamp_surfaced (fact_ids : List FactId) (now : DateTime) : Makes embed_dim expected_dim (stamp_surfaced fact_ids now) := by
  unfold stamp_surfaced
  split
  · exact makes_pure _
  · refine makes_bind (makes_execute fun _ => ?_) fun _ => makes_bind makes_query fun _ => makes_pure _
    exact .update_facts _ _ _ fun f _ => ⟨rfl,rfl,fun active => active⟩

/-- A reinforcement takes the later of two times and the like, and keeps the rest. -/
theorem kept_reinforced (fact : NewFact) (importance : SqlReal) (f : Fact) : f.Kept (reinforced fact importance f) where
  vector := by simp only [reinforced]
  content := by simp only [reinforced]
  expired := fun active => (reinforced_times fact importance f).1.symm.trans active

theorem makes_reinforce (fact : NewFact) (id : FactId) : Makes embed_dim expected_dim (reinforce fact id) := by
  unfold reinforce
  split
  · exact makes_throw _
  · exact makes_execute fun t => .update_facts _ _ _ fun f _ => kept_reinforced fact _ f

theorem makes_insert_or_reinforce (fact : NewFact) : Makes self.embed_dim expected_dim (insert_or_reinforce self fact) := by
  refine makes_bind makes_require fun _ => makes_bind makes_query fun found => ?_
  cases found with
  | some id => exact makes_bind (makes_reinforce fact id) fun _ => makes_pure _
  | none => exact makes_bind (makes_insert self fact) fun _ => makes_pure _

theorem makes_hard_delete_ids (ids : List FactId) : Makes embed_dim expected_dim (hard_delete_ids ids) := by
  unfold hard_delete_ids
  split
  · exact makes_pure _
  · refine makes_bind makes_require fun _ => makes_bind makes_query fun _ => makes_bind (makes_execute fun _ => ?_) fun _ => makes_pure _
    exact .delete_facts _

end FactStore

namespace EdgeStore
variable {embed_dim expected_dim : Nat}

theorem makes_insert (edge : NewEdge) : Makes embed_dim expected_dim (insert edge) := by
  unfold insert
  split
  · exact makes_throw _
  · refine makes_bind makes_query fun _ => makes_bind (makes_execute fun _ => ?_) fun _ => makes_pure _
    exact .insert_edge _ _

theorem makes_expire (id : Int) (now : DateTime) : Makes embed_dim expected_dim (expire id now) :=
  makes_bind makes_query fun _ => makes_bind (makes_execute fun _ => .expire_edges _ now) fun _ => makes_require

theorem makes_expire_by_fact (fact_id : FactId) (now : DateTime) : Makes embed_dim expected_dim (expire_by_fact fact_id now) :=
  makes_bind makes_query fun _ => makes_bind (makes_execute fun _ => .expire_edges _ now) fun _ => makes_pure _

theorem makes_hard_delete_by_facts (fact_ids : List FactId) : Makes embed_dim expected_dim (hard_delete_by_facts fact_ids) :=
  makes_bind makes_query fun _ => makes_bind (makes_execute fun _ => .delete_edges _) fun _ => makes_pure _

theorem makes_hard_delete_incident (fact_ids : List FactId) : Makes embed_dim expected_dim (hard_delete_incident_to_facts fact_ids) :=
  makes_bind makes_query fun _ => makes_bind (makes_execute fun _ => .delete_edges _) fun _ => makes_pure _

end EdgeStore

namespace ScopeStore
variable {embed_dim expected_dim : Nat}

theorem makes_insert (parent_id : Int) (label : String) (depth : Int) : Makes embed_dim expected_dim (insert parent_id label depth) :=
  makes_bind makes_query fun _ => makes_bind (makes_execute fun _ => .insert_scope _ _) fun _ => makes_pure _

theorem makes_ensureFrom (parent_id depth : Int) (labels : List String) : Makes embed_dim expected_dim (ensureFrom parent_id depth labels) := by
  induction labels generalizing parent_id depth with
  | nil => exact makes_pure _
  | cons segment rest ih =>
    refine makes_bind (makes_lift _) fun _ => makes_bind (makes_execute fun t => ?_) fun _ => makes_bind makes_query fun found => ?_
    · unfold insertOrIgnore
      split
      · exact .beside ⟨rfl,rfl,rfl,rfl,rfl,rfl,rfl,rfl⟩
      · exact .insert_scope _ _
    · cases found with
      | some node => exact ih node.id (depth + 1)
      | none => exact makes_throw _

theorem makes_ensure_path (path : String) : Makes embed_dim expected_dim (ensure_path path) :=
  makes_bind makes_require fun _ => makes_ensureFrom _ _ _

end ScopeStore

section beside
variable {embed_dim expected_dim : Nat} (self : SqliteBackend)

theorem EventStore.makes_insert (event : NewEvent) : Makes embed_dim expected_dim (EventStore.insert self event) :=
  makes_bind makes_query fun _ => makes_bind (makes_execute fun _ => .insert_event _ _) fun _ => makes_pure _

theorem LineageStore.makes_insert (record : NewLineageRecord) (provenance : PromotionProvenance) :
    Makes embed_dim expected_dim (LineageStore.insert record provenance) :=
  makes_bind makes_query fun _ => makes_bind makes_require fun _ => makes_bind makes_query fun _ => makes_bind makes_require fun _ =>
    makes_bind makes_query fun _ => makes_bind (makes_beside fun _ => ⟨rfl,rfl,rfl,rfl,rfl,rfl,rfl,rfl⟩) fun _ => makes_pure _

theorem LineageStore.makes_insert_raw (entry : LineageRow) : Makes embed_dim expected_dim (LineageStore.insert_raw entry) :=
  makes_bind makes_query fun _ => makes_bind makes_require fun _ => makes_beside fun _ => ⟨rfl,rfl,rfl,rfl,rfl,rfl,rfl,rfl⟩

theorem LineageStore.makes_delete (wisdom_fact_id : FactId) : Makes embed_dim expected_dim (LineageStore.delete wisdom_fact_id) :=
  makes_bind makes_query fun _ => makes_bind (makes_beside fun _ => ⟨rfl,rfl,rfl,rfl,rfl,rfl,rfl,rfl⟩) fun _ => makes_pure _

theorem SummaryStore.makes_insert (summary : NewSummary) : Makes self.embed_dim expected_dim (SummaryStore.insert self summary) := by
  intro s id t committed
  obtain ⟨_,_,checked,rest⟩ := commits_bind.mp committed
  obtain ⟨sized,rfl⟩ := commits_require.mp checked
  refine makes_bind makes_query (fun _ => makes_bind (makes_execute fun _ => ?_) fun _ => makes_pure _) _ _ _ rest
  exact .insert_summary _ _ fun _ => sized

theorem SummaryStore.makes_delete_by_level (level : ConsolidationLevel) : Makes embed_dim expected_dim (SummaryStore.delete_by_level level) :=
  makes_execute fun _ => .delete_summaries _

theorem Config.makes_set_config (key value : String) : Makes embed_dim expected_dim (Config.set_config key value) :=
  makes_beside fun _ => ⟨rfl,rfl,rfl,rfl,rfl,rfl,rfl,rfl⟩

theorem ArchiveManifestStore.makes_insert (entry : NewArchiveManifest) : Makes embed_dim expected_dim (ArchiveManifestStore.insert entry) :=
  makes_bind makes_query fun _ => makes_bind (makes_execute fun _ => .manifest _) fun _ => makes_pure _

theorem ArchiveManifestStore.makes_delete (id : Int) : Makes embed_dim expected_dim (ArchiveManifestStore.delete id) :=
  makes_bind makes_query fun _ => makes_bind (makes_execute fun _ => .manifest _) fun _ => makes_pure _

theorem CheckpointStore.makes_upsert (checkpoint : SessionCheckpoint) : Makes embed_dim expected_dim (CheckpointStore.upsert checkpoint) :=
  makes_beside fun _ => ⟨rfl,rfl,rfl,rfl,rfl,rfl,rfl,rfl⟩

theorem ActivityStore.makes_insert_or_dedup (libraries : ActivityLibraries) (activity : NewActivity) (dedup_window_secs : Int) :
    Makes embed_dim expected_dim (ActivityStore.insert_or_dedup libraries activity dedup_window_secs) := by
  refine makes_bind makes_query fun found => ?_
  cases found with
  | some old => exact makes_bind (makes_beside fun _ => ⟨rfl,rfl,rfl,rfl,rfl,rfl,rfl,rfl⟩) fun _ => makes_pure _
  | none =>
    exact makes_bind makes_query fun _ => makes_bind (makes_beside fun _ => ⟨rfl,rfl,rfl,rfl,rfl,rfl,rfl,rfl⟩) fun _ => makes_pure _

theorem ActivityStore.makes_update_status (id : Int) (status : ActivityStatus) (promoted_fact_id : Option FactId) :
    Makes embed_dim expected_dim (ActivityStore.update_status id status promoted_fact_id) :=
  makes_bind makes_query fun _ => makes_bind (makes_beside fun _ => ⟨rfl,rfl,rfl,rfl,rfl,rfl,rfl,rfl⟩) fun _ => makes_require

end beside

namespace EmbeddingMeta
variable {embed_dim expected_dim : Nat}

theorem makes_require_present : Makes embed_dim expected_dim require_present :=
  makes_unchanged fun _ _ _ committed => (commits_require_present.mp committed).2

/-- An identity is recorded only where there is none. -/
theorem makes_record_if_absent (candidate : EmbeddingFingerprint) :
    Makes embed_dim expected_dim (record_if_absent candidate expected_dim) := by
  intro s stored t committed
  rcases commits_record_if_absent committed with ⟨_,rfl⟩ | ⟨none,sized,contents⟩
  · exact .refl
  · rw [contents]
    exact .single (.stamp candidate none sized)

end EmbeddingMeta

namespace Ingest
variable {embed_dim expected_dim : Nat} (self : SqliteBackend)

theorem makes_insert_fact_atomic (fact : NewFact) (fingerprint : EmbeddingFingerprint) (expected_dim : Nat) :
    Makes self.embed_dim expected_dim (insert_fact_atomic self fact fingerprint expected_dim) :=
  makes_bind (EmbeddingMeta.makes_record_if_absent _) fun _ => FactStore.makes_insert self fact

theorem makes_resolveEntry (acc : ResolvedScopes) (path : Option String) : Makes embed_dim expected_dim (resolveEntry acc path) := by
  cases path with
  | none => exact makes_pure _
  | some path =>
    rw [resolveEntry]
    split
    · exact makes_pure _
    · exact makes_bind (ScopeStore.makes_ensure_path path) fun _ => makes_pure _

theorem makes_insert_facts_batch_atomic (facts : List NewFact) (scope_paths : List (Option String)) (fingerprint : EmbeddingFingerprint)
    (expected_dim : Nat) : Makes self.embed_dim expected_dim (insert_facts_batch_atomic self facts scope_paths fingerprint expected_dim) := by
  refine makes_bind makes_require fun _ => makes_bind (EmbeddingMeta.makes_record_if_absent _) fun _ => ?_
  refine makes_bind (makes_foldlM makes_resolveEntry _ _) fun resolved => makes_bind ?_ fun _ => makes_pure _
  exact makes_foldlM (fun _ entry => makes_bind (FactStore.makes_insert self _) fun _ => makes_pure _) _ _

theorem makes_promote_atomic (fact : NewFact) (scope_path : Option String) (source_fact_ids : List FactId)
    (provenance : PromotionProvenance) : Makes self.embed_dim expected_dim (promote_atomic self fact scope_path source_fact_ids provenance) := by
  refine makes_bind EmbeddingMeta.makes_require_present fun _ => makes_bind ?_ fun scope => ?_
  · cases scope_path with
    | none => exact makes_pure _
    | some path => exact makes_bind (ScopeStore.makes_ensure_path path) fun _ => makes_pure _
  · exact makes_bind (FactStore.makes_insert self _) fun _ => makes_bind (LineageStore.makes_insert _ _) fun _ => makes_pure _

end Ingest

namespace Resolve
variable (self : SqliteBackend) {expected_dim : Nat}

theorem makes_cascade_expire {embed_dim expected_dim : Nat} (old_id : FactId) (now : DateTime) : Makes embed_dim expected_dim (cascade_expire old_id now) :=
  makes_bind (FactStore.makes_expire_and_invalidate _ _) fun _ => makes_void (EdgeStore.makes_expire_by_fact _ _)

theorem makes_insertLinked (old_id : FactId) (new_fact : NewFact) (relation : String) (weight : F64) (now : DateTime) :
    Makes self.embed_dim expected_dim (insertLinked self old_id new_fact relation weight now) :=
  makes_bind (FactStore.makes_insert self _) fun _ => makes_bind (EdgeStore.makes_insert _) fun _ => makes_pure _

theorem makes_resolve_conflict_atomic (decision : CrudDecision) (old_id : FactId) (new_fact : NewFact) (relation : String) (weight : F64)
    (now : DateTime) : Makes self.embed_dim expected_dim (resolve_conflict_atomic self decision old_id new_fact relation weight now) := by
  cases decision with
  | Noop => exact makes_pure _
  | Add => exact makes_bind makes_query fun _ => makes_bind makes_require fun _ => makes_insertLinked self _ _ _ _ _
  | Update => exact makes_bind (makes_cascade_expire _ _) fun _ => makes_insertLinked self _ _ _ _ _
  | Delete => exact makes_bind (makes_cascade_expire _ _) fun _ => makes_pure _

end Resolve

theorem SessionEdges.makes_insert {embed_dim expected_dim : Nat} (fact_ids : List FactId) (relation : String) (weight : F64) (scope_id : Int)
    (now : DateTime) : Makes embed_dim expected_dim (SessionEdges.insert_cosession_edges_atomic fact_ids relation weight scope_id now) := by
  refine makes_bind makes_query fun existing => makes_foldlM (fun new_edges pair => ?_) _ _
  split
  · exact makes_pure _
  · exact makes_bind (EdgeStore.makes_insert _) fun _ => makes_pure _

theorem Forget.makes_prune_atomic {embed_dim expected_dim : Nat} (self : SqliteBackend) (scored : List (FactId × F64)) (to_expire : List FactId)
    (now : DateTime) : Makes embed_dim expected_dim (Forget.prune_atomic self scored to_expire now) := by
  refine makes_bind (FactStore.makes_update_importance_scores_bulk _) fun _ => makes_bind ?_ fun _ => makes_pure _
  exact makes_foldlM (fun _ id => makes_bind (FactStore.makes_expire id now) fun _ => makes_void (EdgeStore.makes_expire_by_fact _ _)) _ _

namespace Bootstrap
variable (self : SqliteBackend) {expected_dim : Nat}

theorem makes_ingestMarked (marker : Option NewEvent) (facts : List NewFact) (fingerprint : EmbeddingFingerprint) (expected_dim : Nat) :
    Makes self.embed_dim expected_dim (ingestMarked self marker facts fingerprint expected_dim) := by
  refine makes_bind ?_ fun marker_id => makes_bind ?_ fun out => makes_bind (makes_guarded ?_) fun _ => makes_pure _
  · cases marker with
    | some event => exact makes_bind (EventStore.makes_insert self event) fun _ => makes_pure _
    | none => exact makes_pure _
  · exact makes_foldlM (fun _ fact => makes_bind (FactStore.makes_insert_or_reinforce _) fun _ => makes_pure _) _ _
  · exact makes_void (EmbeddingMeta.makes_record_if_absent _)

theorem makes_ingest_bootstrap_batch_atomic (marker : Option NewEvent) (skip_if_present : Option EventFilter) (facts : List NewFact)
    (fingerprint : EmbeddingFingerprint) (expected_dim : Nat) :
    Makes self.embed_dim expected_dim (ingest_bootstrap_batch_atomic self marker skip_if_present facts fingerprint expected_dim) := by
  cases skip_if_present with
  | none => exact makes_ingestMarked self _ _ _ _
  | some filter =>
    refine makes_bind (makes_bind makes_require fun _ => makes_query) fun present => ?_
    split
    · exact makes_pure _
    · exact makes_ingestMarked self _ _ _ _

end Bootstrap

namespace Consolidate
variable {embed_dim expected_dim : Nat} (self : SqliteBackend)

theorem makes_applyExpiry (survivor_live : FactId → Bool) (now : DateTime) (acc : DedupApplied) (e : Expiry) :
    Makes embed_dim expected_dim (applyExpiry survivor_live now acc e) := by
  unfold applyExpiry
  split
  · refine makes_bind (makes_attempt (FactStore.makes_expire _ _)) fun r => ?_
    split
    · exact makes_bind (EdgeStore.makes_expire_by_fact _ _) fun _ => makes_pure _
    · exact makes_pure _
    · exact makes_throw _
  · exact makes_pure _

theorem makes_apply_dedup (computed : DedupComputed) (now : DateTime) : Makes embed_dim expected_dim (apply_dedup self computed now) := by
  refine makes_bind (makes_foldlM (fun _ update => FactStore.makes_update_base_importance _ _) _ _) fun _ => ?_
  refine makes_bind (FactStore.makes_update_importance_scores_bulk _) fun _ => makes_bind makes_query fun survivor_live => ?_
  exact makes_foldlM (makes_applyExpiry survivor_live now) _ _

theorem makes_insertAll (summaries : List NewSummary) : Makes self.embed_dim expected_dim (insertAll self summaries) :=
  makes_foldlM (fun _ summary => makes_void (SummaryStore.makes_insert self summary)) _ _

theorem makes_write_summaries (plan : ConsolidationPlan) : Makes self.embed_dim self.embed_dim (write_summaries self plan) := by
  have replaced : ∀ level summaries, Makes self.embed_dim self.embed_dim (do SummaryStore.delete_by_level level; insertAll self summaries) :=
    fun level summaries => makes_bind (SummaryStore.makes_delete_by_level level) fun _ => makes_insertAll self summaries
  refine makes_bind (replaced .Cluster _) fun _ => makes_bind (replaced .Global _) fun _ => ?_
  cases plan.embedding_fingerprint with
  | none => exact makes_pure _
  | some fingerprint => exact makes_void (EmbeddingMeta.makes_record_if_absent _)

theorem makes_apply_plan (plan : ConsolidationPlan) : Makes self.embed_dim self.embed_dim (apply_plan self plan) := by
  refine makes_bind (makes_apply_dedup self _ _) fun applied => makes_bind (makes_guarded (makes_write_summaries self plan)) fun _ => ?_
  exact makes_bind (makes_guarded (Config.makes_set_config _ _)) fun _ => makes_pure _

end Consolidate

namespace Cycle
variable {embed_dim expected_dim : Nat} (self : SqliteBackend)

theorem makes_require_fact (id : FactId) (missing : CycleError) : Makes embed_dim expected_dim (require_fact self id missing) := by
  have get : Makes embed_dim expected_dim (FactStore.get self id) := makes_unchanged fun _ _ _ committed => (FactStore.commits_get.mp committed).2.2
  refine makes_bind (makes_attempt get) fun found => ?_
  split
  · exact makes_pure _
  · exact makes_throw _
  · exact makes_throw _

theorem makes_require_active (id : FactId) (missing : CycleError) (expired_in_report : List FactId) :
    Makes embed_dim expected_dim (require_active self id missing expired_in_report) :=
  makes_bind (makes_require_fact self id missing) fun _ => makes_lift _

theorem makes_validate_new_fact (nf : NewFact) : Makes embed_dim expected_dim (validate_new_fact self nf) :=
  makes_bind makes_require fun _ => makes_bind makes_require fun _ => makes_bind (makes_lift _) fun _ => makes_lift _

theorem makes_validateDelta (expired_in_report : List FactId) (delta : CycleDelta) : Makes embed_dim expected_dim (validateDelta self expired_in_report delta) := by
  cases delta with
  | AddFact nf => exact makes_bind (makes_validate_new_fact self nf) fun _ => makes_pure _
  | AdjustScore fact_id adjustment =>
    exact makes_bind makes_require fun _ => makes_bind (makes_require_active self _ _ _) fun _ => makes_pure _
  | Quarantine fact_id reason => exact makes_bind (makes_require_active self _ _ _) fun _ => makes_pure _
  | Promote fact_id provenance => exact makes_bind (makes_require_active self _ _ _) fun _ => makes_pure _
  | TagOutcome fact_id outcome => exact makes_bind (makes_require_fact self _ _) fun _ => makes_pure _
  | Supersede old_id new_id =>
    exact makes_bind (makes_require_active self _ _ _) fun _ => makes_bind (makes_require_active self _ _ _) fun _ => makes_pure _
  | Synthesize sources new_fact =>
    refine makes_bind (makes_validate_new_fact self _) fun _ => makes_bind makes_require fun _ => ?_
    exact makes_foldlM (fun _ src => makes_bind (makes_require_active self _ _ _) fun _ => makes_pure _) _ _

theorem makes_supersede (now : DateTime) (new_id old_id scope_id : Int) (pass : ApplyPass) :
    Makes embed_dim expected_dim (supersede now new_id old_id scope_id pass) :=
  makes_bind (FactStore.makes_expire _ _) fun _ => makes_bind (EdgeStore.makes_insert _) fun _ => makes_pure _

theorem makes_applyDelta (now : DateTime) (pass : ApplyPass) (delta : CycleDelta) : Makes self.embed_dim expected_dim (applyDelta self now pass delta) := by
  cases delta with
  | AddFact nf => exact makes_bind (FactStore.makes_insert self nf) fun _ => makes_pure _
  | AdjustScore fact_id adjustment =>
    exact makes_bind (FactStore.makes_get self _) fun _ => makes_bind (FactStore.makes_update_base_importance _ _) fun _ => makes_pure _
  | Quarantine fact_id reason =>
    exact makes_bind (FactStore.makes_expire _ _) fun _ => makes_bind (FactStore.makes_merge_metadata _ _) fun _ => makes_pure _
  | Promote fact_id provenance =>
    refine makes_bind (FactStore.makes_get self _) fun source => makes_bind makes_require fun _ => ?_
    refine makes_bind EmbeddingMeta.makes_require_present fun _ => makes_bind (FactStore.makes_insert self _) fun _ => ?_
    exact makes_bind (LineageStore.makes_insert _ _) fun _ => makes_pure _
  | TagOutcome fact_id outcome => exact makes_bind (EventStore.makes_insert self _) fun _ => makes_pure _
  | Supersede old_id new_id =>
    exact makes_bind (FactStore.makes_get self _) fun _ => makes_bind (makes_supersede _ _ _ _ _) fun _ => makes_pure _
  | Synthesize sources new_fact =>
    refine makes_bind (FactStore.makes_insert self _) fun synth_id => makes_bind ?_ fun last => ?_
    · refine makes_foldlM (fun acc src => makes_bind (FactStore.makes_get self _) fun _ => ?_) _ _
      exact makes_bind (makes_supersede _ _ _ _ _) fun _ => makes_pure _
    · exact makes_bind (LineageStore.makes_insert _ _) fun _ => makes_pure _

theorem makes_validate_report (report : CycleReport) : Makes embed_dim expected_dim (validate_report self report) := by
  refine makes_bind (makes_foldlM (makes_validateDelta self) _ _) fun _ => ?_
  exact makes_foldlM (fun _ id => makes_void (makes_require_fact self _ _)) _ _

theorem makes_append_cycle_history (codec : HistoryCodec) (metadata : CycleMetadata) :
    Makes embed_dim expected_dim (append_cycle_history codec metadata) := by
  refine makes_bind makes_query fun text => ?_
  cases text with
  | none => exact Config.makes_set_config _ _
  | some text => exact makes_bind (makes_lift _) fun _ => Config.makes_set_config _ _

/-- What follows the deltas of a report. -/
theorem makes_closing (codec : HistoryCodec) (report : CycleReport) (now : DateTime) (pass : ApplyPass) : Makes embed_dim expected_dim (do
    FactStore.mark_dream_cycled (toMark report pass) report.metadata.cycle_id now
    Config.set_config LAST_DREAM_CYCLE_AT report.metadata.time_window.end.to_rfc3339
    append_cycle_history codec report.metadata
    return pass) := by
  refine makes_bind (FactStore.makes_mark_dream_cycled _ _ _) fun _ => makes_bind (Config.makes_set_config _ _) fun _ => ?_
  exact makes_bind (makes_append_cycle_history codec report.metadata) fun _ => makes_pure _

theorem makes_apply_cycle_deltas_atomic (codec : HistoryCodec) (report : CycleReport) (now : DateTime) :
    Makes self.embed_dim expected_dim (apply_cycle_deltas_atomic self codec report now) := by
  refine makes_bind (makes_validate_report self report) fun _ => makes_bind (makes_guarded EmbeddingMeta.makes_require_present) fun _ => ?_
  exact makes_bind (makes_foldlM (makes_applyDelta self now) _ _) fun pass => makes_closing codec report now pass

end Cycle

theorem Archive.makes_commit_archive_atomic {embed_dim expected_dim : Nat} (entry : NewArchiveManifest) (fact_ids : List FactId) :
    Makes embed_dim expected_dim (Archive.commit_archive_atomic entry fact_ids) :=
  makes_bind (ArchiveManifestStore.makes_insert _) fun _ => makes_bind (EdgeStore.makes_hard_delete_incident _) fun _ =>
    makes_void (FactStore.makes_hard_delete_ids _)

/-- A call that takes part in a reconstruction or stamps the identity anew. -/
def PortWrite.OnSpaces : PortWrite → Prop
  | .store_embedding_fingerprint _ => True
  | .begin_populating_space _ _ => True
  | .write_backfill_batch _ _ => True
  | .promote_space _ => True
  | .deprecate_space _ => True
  | _ => False

/-- The dimension that a call requires of an identity it records. -/
def PortWrite.expected_dim (self : SqliteBackend) : PortWrite → Nat
  | .insert_fact_atomic _ _ expected_dim => expected_dim
  | .insert_facts_batch_atomic _ _ _ expected_dim => expected_dim
  | .ingest_bootstrap_batch_atomic _ _ _ _ expected_dim => expected_dim
  | .record_embedding_fingerprint_if_absent _ expected_dim => expected_dim
  | _ => self.embed_dim

/-- Every other call commits a sequence of changes. -/
theorem PortWrite.makes (self : SqliteBackend) {call : PortWrite} (ordinary : ¬ call.OnSpaces) :
    Makes self.embed_dim (call.expected_dim self) (call.run self) := by
  cases call with
  | insert_event event => exact makes_void (EventStore.makes_insert self event)
  | insert_fact fact => exact makes_void (FactStore.makes_insert self fact)
  | insert_or_reinforce_fact fact => exact makes_void (FactStore.makes_insert_or_reinforce fact)
  | expire_fact id now => exact FactStore.makes_expire id now
  | expire_and_invalidate_fact id now => exact FactStore.makes_expire_and_invalidate id now
  | set_fact_pinned id pinned => exact FactStore.makes_set_pinned id pinned
  | update_fact_base_importance id base_importance => exact FactStore.makes_update_base_importance id base_importance
  | update_fact_importance_score id score => exact FactStore.makes_update_importance_score id score
  | increment_fact_access id now => exact FactStore.makes_increment_access id now
  | merge_fact_metadata id patch => exact FactStore.makes_merge_metadata id patch
  | mark_facts_dream_cycled ids cycle_id now => exact FactStore.makes_mark_dream_cycled ids cycle_id now
  | stamp_facts_surfaced fact_ids now => exact makes_void (FactStore.makes_stamp_surfaced fact_ids now)
  | hard_delete_facts ids => exact makes_void (FactStore.makes_hard_delete_ids ids)
  | insert_edge edge => exact makes_void (EdgeStore.makes_insert edge)
  | expire_edge id now => exact EdgeStore.makes_expire id now
  | expire_edges_by_fact fact_id now => exact makes_void (EdgeStore.makes_expire_by_fact fact_id now)
  | hard_delete_edges_by_facts fact_ids => exact makes_void (EdgeStore.makes_hard_delete_by_facts fact_ids)
  | insert_scope parent_id label depth => exact makes_void (ScopeStore.makes_insert parent_id label depth)
  | ensure_scope_path path => exact makes_void (ScopeStore.makes_ensure_path path)
  | insert_fact_atomic fact fingerprint expected_dim => exact makes_void (Ingest.makes_insert_fact_atomic self _ _ _)
  | insert_facts_batch_atomic facts scope_paths fingerprint expected_dim =>
    exact makes_void (Ingest.makes_insert_facts_batch_atomic self _ _ _ _)
  | insert_cosession_edges_atomic fact_ids relation weight scope_id now => exact makes_void (SessionEdges.makes_insert _ _ _ _ _)
  | resolve_conflict_atomic decision old_id new_fact relation weight now =>
    exact makes_void (Resolve.makes_resolve_conflict_atomic self _ _ _ _ _ _)
  | prune_atomic scored to_expire now => exact makes_void (Forget.makes_prune_atomic self _ _ _)
  | ingest_bootstrap_batch_atomic marker skip_if_present facts fingerprint expected_dim =>
    exact makes_void (Bootstrap.makes_ingest_bootstrap_batch_atomic self _ _ _ _ _)
  | insert_summary summary => exact makes_void (SummaryStore.makes_insert self summary)
  | delete_summaries_by_level level => exact SummaryStore.makes_delete_by_level level
  | insert_lineage record provenance => exact makes_void (LineageStore.makes_insert _ _)
  | insert_lineage_raw entry => exact LineageStore.makes_insert_raw entry
  | delete_lineage wisdom_fact_id => exact makes_void (LineageStore.makes_delete _)
  | apply_cycle_deltas_atomic codec report now => exact makes_void (Cycle.makes_apply_cycle_deltas_atomic self _ _ _)
  | apply_plan plan => exact makes_void (Consolidate.makes_apply_plan self plan)
  | promote_atomic fact scope_path source_fact_ids provenance => exact makes_void (Ingest.makes_promote_atomic self _ _ _ _)
  | record_embedding_fingerprint_if_absent candidate expected_dim => exact makes_void (EmbeddingMeta.makes_record_if_absent _)
  | set_config key value => exact Config.makes_set_config key value
  | insert_or_dedup_activity libraries activity dedup_window_secs => exact makes_void (ActivityStore.makes_insert_or_dedup _ _ _)
  | update_activity_status id status promoted_fact_id => exact ActivityStore.makes_update_status _ _ _
  | upsert_checkpoint checkpoint => exact CheckpointStore.makes_upsert checkpoint
  | insert_archive_manifest entry => exact makes_void (ArchiveManifestStore.makes_insert entry)
  | delete_archive_manifest id => exact makes_void (ArchiveManifestStore.makes_delete id)
  | commit_archive_atomic entry fact_ids => exact Archive.makes_commit_archive_atomic entry fact_ids
  | store_embedding_fingerprint _ => exact absurd trivial ordinary
  | begin_populating_space _ _ => exact absurd trivial ordinary
  | write_backfill_batch _ _ => exact absurd trivial ordinary
  | promote_space _ => exact absurd trivial ordinary
  | deprecate_space _ => exact absurd trivial ordinary

end MemoryEngine
