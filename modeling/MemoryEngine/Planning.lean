import MemoryEngine.DedupApply

/-! The compute phase of a consolidation: the dedup plan of the snapshot, then the
summaries of what the plan keeps. -/

namespace MemoryEngine
open Time KeyedTable Transaction Dedup MergeLog

/-- What a consolidation runs with. The similarity and the two passes that call the
    consumer's summarizer and embedder come as functions. -/
structure ConsolidationRun where
  parse_from_rfc3339 : String → Except String DateTime
  similarity : Embedding → Embedding → F32
  dedup_threshold : F32
  cluster_threshold : F32
  min_cluster_size : Nat
  compute_clusters : List Fact → DateTime → Except MemoryError (Bool × List NewSummary)
  compute_global : List NewSummary → DateTime → Except MemoryError (Option NewSummary)
  fingerprint : EmbeddingFingerprint

namespace ConsolidationRun
variable (run : ConsolidationRun)

def config : ConsolidationConfig := ⟨F32.toF64 run.dedup_threshold,F32.toF64 run.cluster_threshold,run.min_cluster_size⟩

/-- The dedup pass over a snapshot. -/
def dedup (snapshot : Snapshot) : DedupComputed :=
  compute_dedup run.similarity run.dedup_threshold snapshot.active_facts MAX_FACTS_FOR_DEDUP snapshot.last

/-- The two passes over the facts that the dedup pass keeps. -/
def fuse (snapshot : Snapshot) : Except MemoryError (Bool × List NewSummary × Option NewSummary) := do
  let survivors := snapshot.active_facts.filter fun f => !(run.dedup snapshot).losers.contains f.id
  let (ran,summaries) ← run.compute_clusters survivors snapshot.now
  if ran then do
    let global_summary ← run.compute_global summaries snapshot.now
    return (ran,summaries,global_summary)
  else return (ran,summaries,none)

/-- The fact drives comparisons in the dedup pass over a snapshot: the pass runs, and
    the fact is among those it takes for new. -/
def Drives (snapshot : Snapshot) (f : Fact) : Prop :=
  (run.dedup snapshot).skipped = false ∧ f ∈ drivers snapshot.active_facts snapshot.last

/-- The plan of the three passes. The identity of the embedder is stamped only with a
    summary. -/
def planOf (snapshot : Snapshot) (fused : Bool × List NewSummary × Option NewSummary) : ConsolidationPlan where
  dedup := run.dedup snapshot
  cluster_ran := fused.1
  cluster_summaries := fused.2.1
  global_summary := fused.2.2
  embedding_fingerprint := if !fused.2.1.isEmpty || fused.2.2.isSome then some run.fingerprint else none
  now := snapshot.now

/-- Over both caps nothing is planned. -/
def compute_plan (snapshot : Snapshot) : Except MemoryError ConsolidationPlan :=
  if snapshot.over_both_caps = true then .ok ⟨⟨true,[],[],[]⟩,false,[],none,none,snapshot.now⟩
  else (run.fuse snapshot).map (run.planOf snapshot)

def consolidator : Consolidator := ⟨run.parse_from_rfc3339,run.compute_plan⟩

/-- The dedup part of a plan is the dedup pass, or empty over both caps; either way
    the plan carries the time of the snapshot. -/
theorem compute_plan_dedup {snapshot : Snapshot} {plan : ConsolidationPlan} (computed : run.compute_plan snapshot = .ok plan) :
    plan.now = snapshot.now ∧
      plan.dedup = if snapshot.over_both_caps = true then ⟨true,[],[],[]⟩ else run.dedup snapshot := by
  unfold compute_plan at computed
  by_cases capped : snapshot.over_both_caps = true
  · rw [if_pos capped] at computed ⊢
    cases computed
    exact ⟨rfl,rfl⟩
  · rw [if_neg capped] at computed ⊢
    cases fused : run.fuse snapshot with
    | error e =>
      rw [fused] at computed
      cases computed
    | ok result =>
      rw [fused] at computed
      cases computed
      exact ⟨rfl,rfl⟩

end ConsolidationRun

namespace Consolidate
variable {self : SqliteBackend}

/-- A snapshot is taken of the active facts, or of none of them over both caps, and
    reading it changes nothing. -/
theorem commits_load_snapshot {parse : String → Except String DateTime} {config : ConsolidationConfig} {now : DateTime} {s t : Db}
    {snapshot : Snapshot} (committed : Commits (load_snapshot self parse config now) s snapshot t) :
    t = s ∧ snapshot.now = now ∧ parseWatermark parse (s.config.lookup "last_consolidated_at") = .ok snapshot.last ∧
      (snapshot.over_both_caps = true ∧ snapshot.active_facts = [] ∨
        snapshot.over_both_caps = false ∧ snapshot.active_facts = s.facts.rows.filter fun f => f.t_expired.isNone) ∧
      (snapshot.over_both_caps = true → MAX_FACTS_FOR_DEDUP < s.activeFacts.length) := by
  obtain ⟨_,_,checked,reading⟩ := commits_bind.mp committed
  obtain ⟨_,rfl⟩ := commits_lift.mp checked
  obtain ⟨text,_,configured,parsing⟩ := commits_bind.mp reading
  obtain ⟨rfl,rfl⟩ := commits_query.mp configured
  obtain ⟨last,_,parsed,querying⟩ := commits_bind.mp parsing
  obtain ⟨watermark,rfl⟩ := commits_lift.mp parsed
  obtain ⟨active,_,queried,taken⟩ := commits_bind.mp querying
  obtain ⟨rfl,rfl⟩ := commits_query.mp queried
  split at taken
  · rename_i large
    obtain ⟨rfl,rfl⟩ := commits_pure.mp taken
    exact ⟨rfl,rfl,watermark,.inl ⟨rfl,rfl⟩,fun _ => large.1⟩
  · obtain ⟨facts,_,converted,last⟩ := commits_bind.mp taken
    obtain ⟨readable,rfl⟩ := commits_lift.mp converted
    obtain ⟨rfl,rfl⟩ := commits_pure.mp last
    exact ⟨rfl,rfl,watermark,.inr ⟨rfl,(readRows_ok.mp readable).1⟩,by simp⟩

/-- The dedup part of a plan, over both caps included, is planned on the facts of the
    snapshot and folds what the dedup pass folds. -/
theorem planned_compute_plan {run : ConsolidationRun} {snapshot : Snapshot} {plan : ConsolidationPlan} {rows : List Fact}
    (computed : run.compute_plan snapshot = .ok plan) (taken : snapshot.over_both_caps = true ∧ snapshot.active_facts = [] ∨
      snapshot.over_both_caps = false ∧ snapshot.active_facts = rows) :
    Planned snapshot.active_facts plan.dedup ∧ plan.dedup.losers = (run.dedup snapshot).losers := by
  obtain ⟨_,same⟩ := run.compute_plan_dedup computed
  obtain ⟨planned,_⟩ := compute_dedup_spec run.similarity run.dedup_threshold snapshot.active_facts MAX_FACTS_FOR_DEDUP snapshot.last
  rcases taken with ⟨capped,nothing⟩ | ⟨free,_⟩
  · rw [if_pos capped] at same
    rw [same]
    refine ⟨⟨Ordered.nil,by simp,rfl⟩,?_⟩
    -- without facts the pass has no loser either
    cases folded : (run.dedup snapshot).losers with
    | nil => rfl
    | cons id rest =>
      have listed : id ∈ (run.dedup snapshot).losers := by rw [folded]; exact List.mem_cons_self
      obtain ⟨e,expired,_⟩ := List.mem_map.mp listed
      obtain ⟨loser,member,_⟩ := planned.origin e expired
      rw [nothing] at member
      cases member
  · rw [if_neg (by rw [free]; exact Bool.false_ne_true)] at same
    rw [same]
    exact ⟨planned,rfl⟩

/-- Summaries are written beside the facts and the configuration. -/
theorem leaves_write_summaries (plan : ConsolidationPlan) : Leaves (fun t => (t.config,t.facts)) (write_summaries self plan) := by
  have one : ∀ summary, Leaves (fun t => (t.config,t.facts)) (SummaryStore.insert self summary) := by
    intro summary
    unfold SummaryStore.insert
    refine leaves_bind leaves_require fun _ => leaves_bind leaves_query fun _ => leaves_bind ?_ fun _ => leaves_pure _
    exact leaves_execute fun _ => rfl
  have inserted : ∀ summaries, Leaves (fun t => (t.config,t.facts)) (insertAll self summaries) := by
    intro summaries
    unfold insertAll
    exact leaves_foldlM (fun _ summary => leaves_bind (one summary) fun _ => leaves_pure _) summaries ()
  have cleared : ∀ level, Leaves (fun t => (t.config,t.facts)) (SummaryStore.delete_by_level level) := fun _ =>
    leaves_execute fun _ => rfl
  have recorded : Leaves (fun t => (t.config,t.facts)) (record_fingerprint self plan.embedding_fingerprint) := by
    cases plan.embedding_fingerprint with
    | none => exact leaves_pure _
    | some fingerprint => exact leaves_bind (EmbeddingMeta.leaves_record_if_absent _ (fun _ _ => rfl) _ _) fun _ => leaves_pure _
  exact leaves_bind (leaves_bind (cleared .Cluster) fun _ => inserted _) fun _ =>
    leaves_bind (leaves_bind (cleared .Global) fun _ => inserted _) fun _ => recorded

/-- What a consolidation does to the facts is what its dedup part does, and it moves
    the watermark to the time of the plan unless the dedup part was skipped. -/
theorem commits_apply_plan {plan : ConsolidationPlan} {r : ConsolidationStats × List FactId} {s t : Db}
    (committed : Commits (apply_plan self plan) s r t) :
    (∃ applied m, Commits (apply_dedup self plan.dedup plan.now) s applied m ∧ t.facts = m.facts) ∧
      t.config.lookup "last_consolidated_at" = if plan.dedup.skipped then s.config.lookup "last_consolidated_at"
        else some plan.now.to_rfc3339 := by
  obtain ⟨applied,m₁,deduplicated,rest⟩ := commits_bind.mp committed
  obtain ⟨_,m₂,summarized,stamping⟩ := commits_bind.mp rest
  obtain ⟨_,m₃,stamped,last⟩ := commits_bind.mp stamping
  obtain ⟨_,rfl⟩ := commits_pure.mp last
  obtain ⟨config,facts⟩ := Prod.mk.inj (leaves_guarded (leaves_write_summaries _) _ _ _ summarized)
  have before : m₁.config = s.config := (Prod.mk.inj (keepsBirths_apply_dedup _ _ _ _ _ deduplicated)).1
  rcases commits_guarded.mp stamped with ⟨compared,written⟩ | ⟨skipped,rfl⟩
  · have marked := commits_execute.mp written
    rw [if_neg (by rw [compared]; exact Bool.false_ne_true),marked]
    exact ⟨⟨applied,m₁,deduplicated,facts⟩,Config.lookup_put _ _ _⟩
  · rw [if_pos (by simpa using skipped),config,before]
    exact ⟨⟨applied,m₁,deduplicated,facts⟩,rfl⟩

end Consolidate
end MemoryEngine
