import MemoryEngine.ClusterFusion

/-! The summaries of a consolidation against the store they are committed to. They are
computed from a snapshot without a lock, and the commit looks for what has gone
since only among the survivors of the dedup plan. -/

namespace MemoryEngine
open Time KeyedTable Transaction Dedup MergeLog Fusion

/-- The summaries that a plan would write. -/
def ConsolidationPlan.summaries (plan : ConsolidationPlan) : List NewSummary := plan.cluster_summaries ++ plan.global_summary.toList

/-- The facts that the planned summaries were made of. -/
def ConsolidationPlan.sources (plan : ConsolidationPlan) : List FactId := plan.summaries.flatMap NewSummary.source_fact_ids

namespace Fusion
variable {similarity : Embedding → Embedding → F32} {generator : SummaryGenerator} {embedder : EmbeddingProvider}

theorem cluster_summary_spec {params : ClusterParams} {cluster : List Fact} {summary : NewSummary}
    (made : cluster_summary generator embedder params cluster = .ok summary) :
    summary.level = .Cluster ∧ summary.source_fact_ids = cluster.map Fact.id := by
  obtain ⟨both,_,built⟩ := made_bind.mp made
  cases built
  exact ⟨rfl,rfl⟩

/-- Cluster summaries are made of the facts that were given. -/
theorem compute_clusters_spec {facts : List Fact} {params : ClusterParams} {computed : ClusterComputed}
    (made : compute_clusters similarity generator embedder facts params = .ok computed) :
    (computed.ran = false → computed.summaries = []) ∧
      ∀ summary ∈ computed.summaries, summary.level = .Cluster ∧ ∀ id ∈ summary.source_fact_ids, ∃ f ∈ facts, f.id = id := by
  unfold compute_clusters at made
  by_cases large : facts.length > params.max_facts
  · rw [if_pos large] at made
    cases made
    exact ⟨fun _ => rfl,by simp⟩
  · rw [if_neg large] at made
    obtain ⟨summaries,passed,built⟩ := made_bind.mp made
    cases built
    refine ⟨by simp,fun summary listed => ?_⟩
    obtain ⟨cluster,kept,summarized⟩ := mapM_made passed listed
    obtain ⟨level,sources⟩ := cluster_summary_spec summarized
    refine ⟨level,fun id source => ?_⟩
    rw [sources] at source
    obtain ⟨f,member,same⟩ := List.mem_map.mp source
    have inside : f ∈ (greedy_cluster (linked similarity params.cluster_threshold) facts).flatten :=
      List.mem_flatten.mpr ⟨cluster,(List.mem_filter.mp kept).1,member⟩
    exact ⟨f,(greedy_cluster_perm _ facts).mem_iff.mp inside,same⟩

/-- The global summary has the sources of the cluster summaries. -/
theorem compute_global_spec {summaries : List NewSummary} {embed_dim : Nat} {now : DateTime} {global : Option NewSummary}
    (made : compute_global generator embedder summaries embed_dim now = .ok global) :
    ∀ summary ∈ global, summary.source_fact_ids = summaries.flatMap NewSummary.source_fact_ids := by
  unfold compute_global at made
  by_cases nothing : summaries = []
  · rw [if_pos nothing] at made
    cases made
    rintro _ ⟨⟩
  · rw [if_neg nothing] at made
    obtain ⟨both,_,built⟩ := made_bind.mp made
    cases built
    rintro _ ⟨⟩
    rfl

end Fusion

namespace Consolidate
variable {self : SqliteBackend}

/-- What the summaries of a plan are made of: nothing that the dedup part folds away,
    and nothing at all when clustering did not run. -/
structure Fused (plan : ConsolidationPlan) : Prop where
  updates : plan.dedup.importance_updates = []
  skipped : plan.cluster_ran = false → plan.sources = []
  level : ∀ summary ∈ plan.cluster_summaries, summary.level = .Cluster
  kept : ∀ id ∈ plan.sources, id ∉ plan.dedup.losers

section fused
variable {parse : String → Except String DateTime} {similarity : Embedding → Embedding → F32} {generator : SummaryGenerator}
  {embedder : EmbeddingProvider} {embed_dim : Nat} {dedup_threshold cluster_threshold : F32} {min_cluster_size : Nat}

theorem fused_fuse {run : ConsolidationRun}
    (passes : run = .of parse similarity generator embedder embed_dim dedup_threshold cluster_threshold min_cluster_size)
    {snapshot : Snapshot} {fused : Bool × List NewSummary × Option NewSummary} (made : run.fuse snapshot = .ok fused) :
    Fused (run.planOf snapshot fused) := by
  obtain ⟨⟨ran,summaries⟩,clustering,rest⟩ := made_bind.mp made
  rw [passes] at clustering
  obtain ⟨computed,clustered,renamed⟩ := made_bind.mp clustering
  cases renamed
  obtain ⟨stopped,given⟩ := compute_clusters_spec clustered
  have updates : (run.planOf snapshot fused).dedup.importance_updates = [] :=
    (compute_dedup_spec run.similarity run.dedup_threshold snapshot.active_facts MAX_FACTS_FOR_DEDUP snapshot.last).1.updates
  -- the clusters are formed after the losers have been taken out
  have apart : ∀ summary ∈ computed.summaries, ∀ id ∈ summary.source_fact_ids, id ∉ (run.dedup snapshot).losers := by
    intro summary listed id source loser
    obtain ⟨f,member,rfl⟩ := (given summary listed).2 id source
    rw [← passes] at member
    have away := (List.mem_filter.mp member).2
    rw [List.contains_iff_mem.mpr loser] at away
    cases away
  cases ran : computed.ran with
  | false =>
    rw [ran] at rest
    cases rest
    have empty := stopped ran
    refine ⟨updates,fun _ => ?_,fun summary listed => (given summary listed).1,?_⟩
    · simp [ConsolidationPlan.sources,ConsolidationPlan.summaries,ConsolidationRun.planOf,empty]
    · simp [ConsolidationPlan.sources,ConsolidationPlan.summaries,ConsolidationRun.planOf,empty]
  | true =>
    rw [ran] at rest
    obtain ⟨global,integrated,built⟩ := made_bind.mp rest
    cases built
    rw [passes] at integrated
    refine ⟨updates,by rintro ⟨⟩,fun summary listed => (given summary listed).1,fun id source => ?_⟩
    obtain ⟨summary,planned,inside⟩ := List.mem_flatMap.mp source
    rcases List.mem_append.mp planned with cluster | whole
    · exact apart summary cluster id inside
    · have gathered := compute_global_spec integrated summary (Option.mem_toList.mp whole)
      rw [gathered] at inside
      obtain ⟨part,listed,among⟩ := List.mem_flatMap.mp inside
      exact apart part listed id among

theorem fused_compute_plan {snapshot : Snapshot} {plan : ConsolidationPlan}
    (computed : (ConsolidationRun.of parse similarity generator embedder embed_dim dedup_threshold cluster_threshold
      min_cluster_size).compute_plan snapshot = .ok plan) : Fused plan := by
  unfold ConsolidationRun.compute_plan at computed
  by_cases capped : snapshot.over_both_caps = true
  · rw [if_pos capped] at computed
    cases computed
    exact ⟨rfl,fun _ => rfl,by simp,by simp [DedupComputed.losers]⟩
  · rw [if_neg capped] at computed
    cases fused : (ConsolidationRun.of parse similarity generator embedder embed_dim dedup_threshold cluster_threshold
        min_cluster_size).fuse snapshot with
    | error e =>
      rw [fused] at computed
      cases computed
    | ok passes =>
      rw [fused] at computed
      cases computed
      exact fused_fuse rfl fused

end fused

theorem survivor_lost_applyExpiry {survivor_live : FactId → Bool} {now : DateTime} {acc acc' : DedupApplied} {e : Expiry} {s t : Db}
    (committed : Commits (applyExpiry survivor_live now acc e) s acc' t) :
    acc'.survivor_lost = (acc.survivor_lost || !survivor_live e.survivor) := by
  unfold applyExpiry at committed
  by_cases live : survivor_live e.survivor = true
  · rw [if_pos live] at committed
    rw [live,Bool.not_true,Bool.or_false]
    obtain ⟨r,m,attempted,rest⟩ := commits_bind.mp committed
    cases r with
    | ok _ =>
      obtain ⟨n,m',_,last⟩ := commits_bind.mp rest
      obtain ⟨rfl,_⟩ := commits_pure.mp last
      rfl
    | error err =>
      cases err with
      | NotFound what =>
        obtain ⟨rfl,_⟩ := commits_pure.mp rest
        rfl
      | _ => exact absurd rest commits_throw
  · rw [if_neg live] at committed
    obtain ⟨rfl,_⟩ := commits_pure.mp committed
    simp [live]

theorem survivor_lost_expirations {survivor_live : FactId → Bool} {now : DateTime} {expirations : List Expiry} {acc acc' : DedupApplied}
    {s t : Db} (committed : Commits (expirations.foldlM (applyExpiry survivor_live now) acc) s acc' t) :
    acc'.survivor_lost = true ↔ acc.survivor_lost = true ∨ ∃ e ∈ expirations, survivor_live e.survivor = false := by
  induction expirations generalizing acc s with
  | nil =>
    obtain ⟨rfl,_⟩ := commits_pure.mp committed
    simp
  | cons e rest ih =>
    rw [List.foldlM_cons] at committed
    obtain ⟨next,m,first,tail⟩ := commits_bind.mp committed
    rw [ih tail,survivor_lost_applyExpiry first]
    simp [or_assoc]

/-- The call notices exactly the planned survivors that are no longer active. -/
theorem survivor_lost_apply_dedup {computed : DedupComputed} {now : DateTime} {applied : DedupApplied} {s t : Db}
    (updates : computed.importance_updates = []) (committed : Commits (apply_dedup self computed now) s applied t) :
    applied.survivor_lost = true ↔ ∃ e ∈ computed.expirations, ¬ s.IsActive e.survivor := by
  unfold apply_dedup at committed
  rw [updates] at committed
  obtain ⟨_,m₁,inherited,rest⟩ := commits_bind.mp committed
  obtain ⟨_,m₂,materialized,rest⟩ := commits_bind.mp rest
  obtain ⟨live,m₃,looked,loop⟩ := commits_bind.mp rest
  obtain ⟨_,rfl⟩ := commits_pure.mp inherited
  obtain ⟨rfl,rfl⟩ := commits_query.mp looked
  have scored := expires_update_importance_scores_bulk materialized
  rw [survivor_lost_expirations loop]
  have same : ∀ id, m₃.IsActive id ↔ m₁.IsActive id := by simpa using scored.after
  simp [same]

/-- Rows are appended, each made of one of these summaries, and each of them gives one. -/
structure Adds (summaries : List NewSummary) (s t : Table Summary) : Prop where
  seq : s.seq ≤ t.seq
  old : ∀ row ∈ s.rows, row ∈ t.rows
  new : ∀ row ∈ t.rows, row ∈ s.rows ∨ s.seq < row.id ∧ ∃ summary ∈ summaries, row = SummaryStore.newRow summary row.id
  made : ∀ summary ∈ summaries, ∃ row ∈ t.rows, s.seq < row.id ∧ row = SummaryStore.newRow summary row.id

theorem inserted_summary {summary : NewSummary} {id : Int} {s t : Db} (committed : Commits (SummaryStore.insert self summary) s id t) :
    t.summaries = s.summaries.insert (SummaryStore.newRow summary) (SummaryStore.newRow_key summary) := by
  obtain ⟨_,_,checked,writing⟩ := commits_bind.mp committed
  obtain ⟨_,rfl⟩ := commits_require.mp checked
  obtain ⟨_,_,numbered,executing⟩ := commits_bind.mp writing
  obtain ⟨rfl,rfl⟩ := commits_query.mp numbered
  obtain ⟨_,_,executed,ending⟩ := commits_bind.mp executing
  obtain ⟨_,rfl⟩ := commits_pure.mp ending
  rw [commits_execute.mp executed]

theorem adds_insertAll {summaries : List NewSummary} {s t : Db} {u : Unit} (committed : Commits (insertAll self summaries) s u t) :
    Adds summaries s.summaries t.summaries := by
  unfold insertAll at committed
  induction summaries generalizing s with
  | nil =>
    obtain ⟨_,rfl⟩ := commits_pure.mp committed
    exact ⟨le_refl _,fun row member => member,fun row member => .inl member,by simp⟩
  | cons summary rest ih =>
    rw [List.foldlM_cons] at committed
    obtain ⟨_,m,first,tail⟩ := commits_bind.mp committed
    obtain ⟨id,m',inserted,last⟩ := commits_bind.mp first
    obtain ⟨_,rfl⟩ := commits_pure.mp last
    have table := inserted_summary inserted
    obtain ⟨seq,old,new,made⟩ := ih tail
    have counted : m.summaries.seq = s.summaries.seq + 1 := by
      rw [table]
      rfl
    have fresh : SummaryStore.newRow summary (s.summaries.seq + 1) ∈ m.summaries.rows := by
      rw [table]
      exact Table.mem_insert.mpr (.inr rfl)
    refine ⟨by omega,fun row member => old row ?_,fun row member => ?_,List.forall_mem_cons.mpr ⟨?_,fun other listed => ?_⟩⟩
    · rw [table]
      exact Table.mem_insert.mpr (.inl member)
    · rcases new row member with before | ⟨later,other,listed,shape⟩
      · rw [table] at before
        rcases Table.mem_insert.mp before with older | rfl
        · exact .inl older
        · exact .inr ⟨Int.lt_succ _,summary,List.mem_cons_self,rfl⟩
      · exact .inr ⟨by omega,other,List.mem_cons_of_mem _ listed,shape⟩
    · exact ⟨_,old _ fresh,Int.lt_succ _,rfl⟩
    · obtain ⟨row,member,later,shape⟩ := made other listed
      exact ⟨row,member,by omega,shape⟩

theorem leavesSummaries_record_fingerprint (fingerprint : Option EmbeddingFingerprint) :
    Leaves (fun t => t.summaries) (record_fingerprint self fingerprint) := by
  cases fingerprint with
  | none => exact leaves_pure _
  | some fingerprint => exact leaves_bind (EmbeddingMeta.leaves_record_if_absent _ (fun _ _ => rfl) _ _) fun _ => leaves_pure _

/-- The rows that come with the commit are the planned summaries. -/
theorem wrote_write_summaries {plan : ConsolidationPlan} (level : ∀ summary ∈ plan.cluster_summaries, summary.level = .Cluster)
    {s t : Db} {u : Unit} (committed : Commits (write_summaries self plan) s u t) :
    (∀ row ∈ t.summaries.rows, s.summaries.seq < row.id → ∃ summary ∈ plan.summaries, row.source_fact_ids = summary.source_fact_ids) ∧
      ∀ summary ∈ plan.summaries, ∃ row ∈ t.summaries.rows, s.summaries.seq < row.id ∧
        row.source_fact_ids = summary.source_fact_ids := by
  obtain ⟨_,m,clusters,rest⟩ := commits_bind.mp committed
  obtain ⟨_,m',global,recorded⟩ := commits_bind.mp rest
  obtain ⟨_,a,cleared,inserted⟩ := commits_bind.mp clusters
  obtain ⟨_,b,cleared',inserted'⟩ := commits_bind.mp global
  have first : a.summaries = s.summaries.delete (fun row => row.level == .Cluster) := by
    rw [commits_execute.mp cleared]
  have second : b.summaries = m.summaries.delete (fun row => row.level == .Global) := by
    rw [commits_execute.mp cleared']
  have last : t.summaries = m'.summaries := leavesSummaries_record_fingerprint _ _ _ _ recorded
  obtain ⟨seq,_,new,made⟩ := adds_insertAll inserted
  obtain ⟨_,old,new',made'⟩ := adds_insertAll inserted'
  rw [second] at old new' made'
  rw [first] at seq new made
  rw [last]
  constructor
  · intro row member later
    rcases new' row member with before | ⟨_,summary,listed,shape⟩
    · rcases new row (Table.mem_delete.mp before).1 with older | ⟨_,summary,listed,shape⟩
      · exact absurd (s.summaries.allocated row (Table.mem_delete.mp older).1) (not_le.mpr later)
      · exact ⟨summary,List.mem_append_left _ listed,by rw [shape]; rfl⟩
    · exact ⟨summary,List.mem_append_right _ listed,by rw [shape]; rfl⟩
  · intro summary listed
    rcases List.mem_append.mp listed with cluster | whole
    · obtain ⟨row,member,later,shape⟩ := made summary cluster
      have kept : row ∈ (m.summaries.delete (fun row => row.level == .Global)).rows := by
        refine Table.mem_delete.mpr ⟨member,?_⟩
        have rank : row.level = .Cluster := by
          rw [shape]
          exact level summary cluster
        rw [rank]
        rfl
      exact ⟨row,old row kept,later,by rw [shape]; rfl⟩
    · obtain ⟨row,member,later,shape⟩ := made' summary whole
      exact ⟨row,member,lt_of_le_of_lt seq later,by rw [shape]; rfl⟩

/-- A change of a fact leaves the summaries alone. -/
theorem leavesSummaries_update_base_importance (id : FactId) (base_importance : F64) :
    Leaves (fun t => t.summaries) (FactStore.update_base_importance id base_importance) := by
  cases base_importance with
  | nan =>
    refine leaves_bind leaves_query fun found => ?_
    split
    · exact leaves_throw _
    · exact leaves_throw _
  | num importance =>
    exact leaves_bind leaves_query fun _ => leaves_bind (leaves_execute fun _ => rfl) fun _ => leaves_require

theorem leavesSummaries_applyExpiry (survivor_live : FactId → Bool) (now : DateTime) (acc : DedupApplied) (e : Expiry) :
    Leaves (fun t => t.summaries) (applyExpiry survivor_live now acc e) := by
  have expired : Leaves (fun t => t.summaries) (FactStore.expire e.loser now) :=
    leaves_bind leaves_query fun _ => leaves_bind (leaves_execute fun _ => rfl) fun _ => leaves_require
  have cascaded : Leaves (fun t => t.summaries) (EdgeStore.expire_by_fact e.loser now) :=
    leaves_bind leaves_query fun _ => leaves_bind (leaves_execute fun _ => rfl) fun _ => leaves_pure _
  unfold applyExpiry
  split
  · refine leaves_bind (leaves_attempt expired) fun r => ?_
    cases r with
    | ok _ => exact leaves_bind cascaded fun _ => leaves_pure _
    | error err =>
      cases err with
      | NotFound _ => exact leaves_pure _
      | _ => exact leaves_throw _
  · exact leaves_pure _

theorem leavesSummaries_apply_dedup (computed : DedupComputed) (now : DateTime) :
    Leaves (fun t => t.summaries) (apply_dedup self computed now) := by
  have scored : Leaves (fun t => t.summaries) (FactStore.update_importance_scores_bulk self computed.importance_score_updates) := by
    unfold FactStore.update_importance_scores_bulk
    split
    · exact leaves_throw _
    · exact leaves_execute fun _ => rfl
  exact leaves_bind (leaves_foldlM (fun _ _ => leavesSummaries_update_base_importance _ _) _ _) fun _ =>
    leaves_bind scored fun _ => leaves_bind leaves_query fun _ => leaves_foldlM (leavesSummaries_applyExpiry _ _) _ _

/-- The phases of one consolidation: the snapshot of one state, the plan, and its
    commit to what other operations have made of the store since. -/
structure Phases (self : SqliteBackend) (run : ConsolidationRun) (s m : Db) (plan : ConsolidationPlan)
    (r : ConsolidationStats × List FactId) (t : Db) : Prop where
  planned : ∃ now snapshot, Commits (load_snapshot self run.parse_from_rfc3339 run.config now) s snapshot s ∧
    run.compute_plan snapshot = .ok plan
  committed : Commits (apply_plan self plan) m r t

/-- Every summary that comes with the commit has active sources, and with a source gone
    none comes. -/
structure Current (plan : ConsolidationPlan) (m t : Db) : Prop where
  active : ∀ row ∈ t.summaries.rows, m.summaries.seq < row.id → ∀ id ∈ row.source_fact_ids, t.IsActive id
  skipped : (∃ id ∈ plan.sources, ¬ t.IsActive id) → t.summaries = m.summaries

/-- What of the commit concerns the summaries: the dedup part, which leaves them alone,
    and then their own part unless it is left out. -/
theorem committed_parts {plan : ConsolidationPlan} {r : ConsolidationStats × List FactId} {m t : Db}
    (committed : Commits (apply_plan self plan) m r t) :
    ∃ applied d, Commits (apply_dedup self plan.dedup plan.now) m applied d ∧ d.summaries = m.summaries ∧ t.facts = d.facts ∧
      (wroteSummaries plan applied = true ∧ (∃ w, Commits (write_summaries self plan) d () w ∧ t.summaries = w.summaries) ∨
        wroteSummaries plan applied = false ∧ t.summaries = d.summaries) := by
  obtain ⟨applied,d,deduplicated,rest⟩ := commits_bind.mp committed
  obtain ⟨_,w,summarized,stamping⟩ := commits_bind.mp rest
  obtain ⟨_,_,stamped,last⟩ := commits_bind.mp stamping
  obtain ⟨_,rfl⟩ := commits_pure.mp last
  have marked : Leaves (fun t => (t.summaries,t.facts)) (Config.set_config "last_consolidated_at" plan.now.to_rfc3339) :=
    leaves_execute fun _ => rfl
  obtain ⟨summaries,facts⟩ := Prod.mk.inj (leaves_guarded marked _ _ _ stamped)
  have written : w.facts = d.facts := (Prod.mk.inj (leaves_guarded (leaves_write_summaries _) _ _ _ summarized)).2
  refine ⟨applied,d,deduplicated,leavesSummaries_apply_dedup _ _ _ _ _ deduplicated,facts.trans written,?_⟩
  rcases commits_guarded.mp summarized with ⟨wrote,ran⟩ | ⟨left,same⟩
  · exact .inl ⟨wrote,w,ran,summaries⟩
  · rw [same] at summaries
    exact .inr ⟨by simpa using left,summaries⟩

end Consolidate

/-- Whatever became of the store since the snapshot, the summaries are current exactly
    when every planned source is still active where the commit begins, or when a
    planned survivor is not, which is what the commit looks for. -/
theorem consolidate_summaries_current {self : SqliteBackend} {parse : String → Except String DateTime}
    {similarity : Embedding → Embedding → F32} {generator : SummaryGenerator} {embedder : EmbeddingProvider}
    {dedup_threshold cluster_threshold : F32} {min_cluster_size : Nat} {s m t : Db} {plan : ConsolidationPlan}
    {r : ConsolidationStats × List FactId}
    (phases : Consolidate.Phases self
      (.of parse similarity generator embedder self.embed_dim dedup_threshold cluster_threshold min_cluster_size) s m plan r t) :
    Consolidate.Current plan m t ↔
      (∀ id ∈ plan.sources, m.IsActive id) ∨ ∃ e ∈ plan.dedup.expirations, ¬ m.IsActive e.survivor := by
  obtain ⟨⟨now,snapshot,_,computed⟩,committed⟩ := phases
  obtain ⟨updates,skipped,level,kept⟩ := Consolidate.fused_compute_plan computed
  obtain ⟨applied,d,deduplicated,same,facts,parts⟩ := Consolidate.committed_parts committed
  have lost := Consolidate.survivor_lost_apply_dedup updates deduplicated
  obtain ⟨ran,part,_,grown,expires⟩ := expires_apply_dedup updates deduplicated
  -- the sources are no losers, so the commit itself expires none of them
  have stays : ∀ id ∈ plan.sources, (t.IsActive id ↔ m.IsActive id) := by
    intro id source
    have here : t.IsActive id ↔ d.IsActive id := by rw [Tables.IsActive,facts]; rfl
    rw [here,expires.after,and_iff_left_iff_imp]
    intro _ listed
    rw [grown] at listed
    exact kept id source ((part.map Expiry.loser).subset listed)
  constructor
  · intro current
    by_contra neither
    obtain ⟨stale,live⟩ := not_or.mp neither
    have clustered : plan.cluster_ran = true := by
      by_contra stopped
      rw [skipped (by simpa using stopped)] at stale
      exact stale (by simp)
    have present : applied.survivor_lost = false := by
      rw [← Bool.not_eq_true,lost]
      exact live
    rcases parts with ⟨_,w,written,last⟩ | ⟨left,_⟩
    · have comes := (Consolidate.wrote_write_summaries level written).2
      refine stale fun id source => ?_
      obtain ⟨summary,planned,inside⟩ := List.mem_flatMap.mp source
      obtain ⟨row,member,later,made⟩ := comes summary planned
      rw [← last] at member
      rw [same] at later
      exact (stays id source).mp (current.active row member later id (by rw [made]; exact inside))
    · rw [Consolidate.wroteSummaries,clustered,present] at left
      cases left
  · rintro (fresh | gone)
    · have every : ∀ id ∈ plan.sources, t.IsActive id := fun id source => (stays id source).mpr (fresh id source)
      have live : (∃ id ∈ plan.sources, ¬ t.IsActive id) → t.summaries = m.summaries := by
        rintro ⟨id,source,inactive⟩
        exact absurd (every id source) inactive
      refine ⟨fun row member later id inside => ?_,live⟩
      rcases parts with ⟨_,w,written,last⟩ | ⟨_,last⟩
      · rw [last] at member
        rw [← same] at later
        obtain ⟨summary,planned,made⟩ := (Consolidate.wrote_write_summaries level written).1 row member later
        rw [made] at inside
        exact every id (List.mem_flatMap.mpr ⟨summary,planned,inside⟩)
      · rw [last,same] at member
        exact absurd (m.summaries.allocated row member) (not_le.mpr later)
    · have unchanged : t.summaries = m.summaries := by
        rcases parts with ⟨wrote,_⟩ | ⟨_,last⟩
        · rw [Consolidate.wroteSummaries,lost.mpr gone,Bool.not_true,Bool.and_false] at wrote
          cases wrote
        · exact last.trans same
      refine ⟨fun row member later => ?_,fun _ => unchanged⟩
      rw [unchanged] at member
      exact absurd (m.summaries.allocated row member) (not_le.mpr later)

namespace Sample

def fingerprint : EmbeddingFingerprint := ⟨"model","provider",1,none,"f32"⟩

/-- The facts are similar enough to be fused, not to be merged; every summary is the
    same. -/
def fusion : ConsolidationRun :=
  .of (fun _ => .error "") (fun _ _ => 0x3F400000) ⟨fun _ => .ok "summary"⟩
    ⟨fun _ => .ok [0x3F000000],fun texts => .ok (texts.map fun _ => [0x3F000000]),fingerprint⟩ backend.embed_dim 0x3F800000 0x3F000000 2

/-- The plan for what was loaded satisfies the test. -/
def plans (snapshot : Snapshot) (test : ConsolidationPlan → Bool) : Bool :=
  match fusion.compute_plan snapshot with
  | .ok plan => test plan
  | .error _ => false

theorem planned_of_plans {snapshot : Snapshot} {test : ConsolidationPlan → Bool} (passes : plans snapshot test = true) :
    ∃ plan, fusion.compute_plan snapshot = .ok plan ∧ test plan = true := by
  unfold plans at passes
  cases computed : fusion.compute_plan snapshot with
  | error e =>
    rw [computed] at passes
    cases passes
  | ok plan =>
    rw [computed] at passes
    exact ⟨plan,rfl,passes⟩

end Sample

/-- With nothing in between, three facts are fused into one cluster summary and one
    global summary. -/
theorem consolidate_summaries_current_sample : ∃ plan r t,
    Consolidate.Phases Sample.backend Sample.fusion Sample.engine.storage Sample.engine.storage plan r t ∧
      t.summaries.rows.map Summary.source_fact_ids = [[1,2,3],[1,2,3]] ∧
      (Consolidate.Current plan Sample.engine.storage t ↔
        (∀ id ∈ plan.sources, Sample.engine.storage.IsActive id) ∨
          ∃ e ∈ plan.dedup.expirations, ¬ Sample.engine.storage.IsActive e.survivor) := by
  have ends : Ends (Consolidate.load_snapshot Sample.backend Sample.fusion.parse_from_rfc3339 Sample.fusion.config Sample.moment)
      Sample.engine.storage (fun snapshot _ => Sample.plans snapshot fun plan =>
        Ends (Consolidate.apply_plan Sample.backend plan) Sample.engine.storage fun _ t =>
          t.summaries.rows.map Summary.source_fact_ids == [[1,2,3],[1,2,3]]) = true := by decide +kernel
  obtain ⟨snapshot,s,loaded,planning⟩ := commits_of_ends ends
  obtain ⟨plan,computed,applying⟩ := Sample.planned_of_plans planning
  obtain ⟨r,t,committed,sources⟩ := commits_of_ends applying
  rw [(Consolidate.commits_load_snapshot loaded).1] at loaded
  have phases : Consolidate.Phases Sample.backend Sample.fusion Sample.engine.storage Sample.engine.storage plan r t :=
    ⟨⟨Sample.moment,snapshot,loaded,computed⟩,committed⟩
  exact ⟨plan,r,t,phases,beq_iff_eq.mp sources,consolidate_summaries_current phases⟩

/-- The second fact is expired between the snapshot and the commit; the summaries that
    are written still name it. -/
theorem consolidate_summaries_stale : ∃ plan m r t, Commits (FactStore.expire 2 Sample.moment) Sample.engine.storage () m ∧
    Consolidate.Phases Sample.backend Sample.fusion Sample.engine.storage m plan r t ∧ ¬ Consolidate.Current plan m t := by
  have ends : Ends (Consolidate.load_snapshot Sample.backend Sample.fusion.parse_from_rfc3339 Sample.fusion.config Sample.moment)
      Sample.engine.storage (fun snapshot _ => Sample.plans snapshot fun plan =>
        Ends (FactStore.expire 2 Sample.moment) Sample.engine.storage fun _ m =>
          Ends (Consolidate.apply_plan Sample.backend plan) m fun _ t =>
            t.summaries.rows.any fun row => decide (m.summaries.seq < row.id) && row.source_fact_ids.any fun id =>
              !decide (t.IsActive id)) = true := by decide +kernel
  obtain ⟨snapshot,s,loaded,planning⟩ := commits_of_ends ends
  obtain ⟨plan,computed,expiring⟩ := Sample.planned_of_plans planning
  obtain ⟨_,m,expired,applying⟩ := commits_of_ends expiring
  obtain ⟨r,t,committed,stale⟩ := commits_of_ends applying
  rw [(Consolidate.commits_load_snapshot loaded).1] at loaded
  refine ⟨plan,m,r,t,expired,⟨⟨Sample.moment,snapshot,loaded,computed⟩,committed⟩,fun current => ?_⟩
  obtain ⟨row,member,both⟩ := List.any_eq_true.mp stale
  obtain ⟨later,gone⟩ := Bool.and_eq_true_iff.mp both
  obtain ⟨id,inside,inactive⟩ := List.any_eq_true.mp gone
  have active := current.active row member (of_decide_eq_true later) id inside
  rw [decide_eq_true active] at inactive
  cases inactive

end MemoryEngine
