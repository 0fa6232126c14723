import MemoryEngine.GraphEdit

/-! Consolidation: a snapshot of the active facts, a plan computed from it, one
transaction that applies the plan, and a reload of the graph when the plan
expired anything. -/

namespace MemoryEngine
open Time KeyedTable Transaction GraphEdit

structure ConsolidationConfig where
  dedup_threshold : F64
  cluster_threshold : F64
  min_cluster_size : Nat

structure ConsolidationStats where
  duplicates_removed : Nat
  clusters_created : Nat
  global_summaries : Nat

/-- What the compute phase sees of the store. -/
structure Snapshot where
  active_facts : List Fact
  last : Option DateTime
  now : DateTime
  over_both_caps : Bool

/-- A fact to expire and the fact it was folded into. -/
structure Expiry where
  loser : FactId
  survivor : FactId

structure DedupComputed where
  skipped : Bool
  expirations : List Expiry
  importance_updates : List (FactId × F64)
  importance_score_updates : List (FactId × F64)

structure ConsolidationPlan where
  dedup : DedupComputed
  cluster_ran : Bool
  cluster_summaries : List NewSummary
  global_summary : Option NewSummary
  embedding_fingerprint : Option EmbeddingFingerprint
  now : DateTime

structure DedupApplied where
  expired : List FactId
  survivor_lost : Bool

def MAX_FACTS_FOR_DEDUP : Nat := 50000
def MAX_FACTS_FOR_CLUSTERING : Nat := 50000

/-- The watermark parser and the compute phase with its consumers. -/
structure Consolidator where
  parse_from_rfc3339 : String → Except String DateTime
  compute_plan : Snapshot → Except MemoryError ConsolidationPlan

namespace Consolidate
variable (self : SqliteBackend)

def unitInterval (x : F64) : Bool := x.is_finite && (F64.ofRat 0).le x && x.le (F64.ofRat 1)

def validate (config : ConsolidationConfig) : Except MemoryError Unit :=
  if !unitInterval config.dedup_threshold then .error (.Conflict (.PolicyParameter
    s!"dedup_threshold must be a finite value in [0.0, 1.0], got {self.display config.dedup_threshold}")) else
  if !unitInterval config.cluster_threshold then .error (.Conflict (.PolicyParameter
    s!"cluster_threshold must be a finite value in [0.0, 1.0], got {self.display config.cluster_threshold}")) else
  if config.min_cluster_size < 2 then .error (.Conflict (.PolicyParameter
    s!"min_cluster_size must be >= 2 (a cluster requires at least two members), got {config.min_cluster_size}"))
  else .ok ()

def parseWatermark (parse : String → Except String DateTime) : Option String → Except MemoryError (Option DateTime)
  | none => .ok none
  | some text =>
    match parse text with
    | .ok t => .ok (some t)
    | .error e => .error (.Migration s!"invalid last_consolidated_at: {e}")

def load_snapshot (parse : String → Except String DateTime) (config : ConsolidationConfig) (now : DateTime) : Sql Snapshot := do
  validate self config
  let last ← parseWatermark parse (← Config.get_config "last_consolidated_at")
  let active ← query fun t => t.facts.rows.filter (fun f => f.t_expired.isNone)
  if active.length > MAX_FACTS_FOR_DEDUP ∧ active.length > MAX_FACTS_FOR_CLUSTERING then
    return ⟨[],last,now,true⟩
  else do
    let facts ← rows_to_facts self.embed_dim active
    return ⟨facts,last,now,false⟩

/-- One planned expiry. A lost survivor voids the merge; a loser that is already
    expired is skipped. -/
def applyExpiry (survivor_live : FactId → Bool) (now : DateTime) (acc : DedupApplied) (e : Expiry) : Sql DedupApplied :=
  if survivor_live e.survivor then do
    match ← attempt (FactStore.expire e.loser now) with
    | .ok _ => do
      let _ ← EdgeStore.expire_by_fact e.loser now
      return ⟨acc.expired ++ [e.loser],acc.survivor_lost⟩
    | .error (.NotFound _) => return acc
    | .error err => throw err
  else return ⟨acc.expired,true⟩

def apply_dedup (computed : DedupComputed) (now : DateTime) : Sql DedupApplied := do
  computed.importance_updates.foldlM (fun _ update => FactStore.update_base_importance update.1 update.2) ()
  FactStore.update_importance_scores_bulk self computed.importance_score_updates
  -- every survivor is looked up before anything is expired
  let survivor_live ← query fun t id => decide (t.IsActive id)
  computed.expirations.foldlM (applyExpiry survivor_live now) ⟨[],false⟩

def insertAll (summaries : List NewSummary) : Sql Unit :=
  summaries.foldlM (fun _ summary => do let _ ← SummaryStore.insert self summary) ()

def apply_clusters (summaries : List NewSummary) : Sql Unit := do
  SummaryStore.delete_by_level .Cluster
  insertAll self summaries

def apply_global (summary : Option NewSummary) : Sql Unit := do
  SummaryStore.delete_by_level .Global
  insertAll self summary.toList

/-- Record the identity only when the plan carries one. -/
def record_fingerprint : Option EmbeddingFingerprint → Sql Unit
  | none => pure ()
  | some fingerprint => do
    let _ ← EmbeddingMeta.record_if_absent fingerprint self.embed_dim

def write_summaries (plan : ConsolidationPlan) : Sql Unit := do
  apply_clusters self plan.cluster_summaries
  apply_global self plan.global_summary
  record_fingerprint self plan.embedding_fingerprint

def wroteSummaries (plan : ConsolidationPlan) (applied : DedupApplied) : Bool := plan.cluster_ran && !applied.survivor_lost

def apply_plan (plan : ConsolidationPlan) : Sql (ConsolidationStats × List FactId) := do
  let applied ← apply_dedup self plan.dedup plan.now
  guarded (wroteSummaries plan applied = true) (write_summaries self plan)
  guarded (plan.dedup.skipped = false) (Config.set_config "last_consolidated_at" plan.now.to_rfc3339)
  return (⟨applied.expired.length,if wroteSummaries plan applied then plan.cluster_summaries.length else 0,
    if wroteSummaries plan applied && plan.global_summary.isSome then 1 else 0⟩,applied.expired)

end Consolidate

/-- Replace the graph by one built from a read of the active edges. -/
def reload_graph : Op Unit := do
  let edges ← port EdgeStore.list_active
  mirror fun _ => MemoryGraph.from_active_edges edges

def consolidate (ctx : MemoryCtx) (consolidator : Consolidator) (config : ConsolidationConfig) (now : DateTime) :
    Op ConsolidationStats := do
  ctx.ensure_open
  ctx.ensure_writable
  let snapshot ← port (Consolidate.load_snapshot ctx.backend consolidator.parse_from_rfc3339 config now)
  let plan ← consolidator.compute_plan snapshot
  let (stats,expired_ids) ← port (Consolidate.apply_plan ctx.backend plan)
  guarded (expired_ids ≠ []) reload_graph
  return stats

namespace Consolidate
variable {self : SqliteBackend}

theorem keepsEdges_load_snapshot (parse : String → Except String DateTime) (config : ConsolidationConfig) (now : DateTime) :
    KeepsEdges (load_snapshot self parse config now) := by
  refine keepsEdges_bind (keepsEdges_lift _) fun _ => ?_
  refine keepsEdges_bind (keepsEdges_of_core (Config.keepsCore_get_config _)) fun text => ?_
  refine keepsEdges_bind (keepsEdges_lift _) fun last => keepsEdges_bind keepsEdges_query fun active => ?_
  split
  · exact keepsEdges_pure _
  · exact keepsEdges_bind (keepsEdges_lift _) fun _ => keepsEdges_pure _

theorem edits_applyExpiry {survivor_live : FactId → Bool} {now : DateTime} {acc acc' : DedupApplied} {e : Expiry}
    {s t : Db} (committed : Commits (applyExpiry survivor_live now acc e) s acc' t) :
    ∃ ids, acc'.expired = acc.expired ++ ids ∧ Edits (dropping ids) s t := by
  unfold applyExpiry at committed
  split at committed
  · obtain ⟨r,m,attempted,rest⟩ := commits_bind.mp committed
    rcases commits_attempt.mp attempted with ⟨_,rfl,expired⟩ | ⟨err,rfl,_,rfl⟩
    · obtain ⟨n,m',cascaded,last⟩ := commits_bind.mp rest
      obtain ⟨rfl,rfl⟩ := commits_pure.mp last
      have same := FactStore.keepsEdges_expire _ _ _ _ _ expired
      exact ⟨[e.loser],rfl,Edits.after same (EdgeStore.edits_expire_by_fact cascaded)⟩
    · cases err with
      | NotFound what =>
        obtain ⟨rfl,rfl⟩ := commits_pure.mp rest
        exact ⟨[],by simp,Edits.dropping_none (SameEdges.refl _)⟩
      | _ => exact absurd rest commits_throw
  · obtain ⟨rfl,rfl⟩ := commits_pure.mp committed
    exact ⟨[],by simp,Edits.dropping_none (SameEdges.refl _)⟩

theorem edits_expirations {survivor_live : FactId → Bool} {now : DateTime} {expirations : List Expiry}
    {acc acc' : DedupApplied} {s t : Db}
    (committed : Commits (expirations.foldlM (applyExpiry survivor_live now) acc) s acc' t) :
    ∃ ids, acc'.expired = acc.expired ++ ids ∧ Edits (dropping ids) s t := by
  induction expirations generalizing acc s with
  | nil =>
    obtain ⟨rfl,rfl⟩ := commits_pure.mp committed
    exact ⟨[],by simp,Edits.dropping_none (SameEdges.refl _)⟩
  | cons e rest ih =>
    rw [List.foldlM_cons] at committed
    obtain ⟨next,m,first,tail⟩ := commits_bind.mp committed
    obtain ⟨ids,grown,here⟩ := edits_applyExpiry first
    obtain ⟨ids',grown',after⟩ := ih tail
    exact ⟨ids ++ ids',by rw [grown',grown,List.append_assoc],here.dropping_trans after⟩

theorem edits_apply_dedup {computed : DedupComputed} {now : DateTime} {applied : DedupApplied} {s t : Db}
    (committed : Commits (apply_dedup self computed now) s applied t) : Edits (dropping applied.expired) s t := by
  obtain ⟨_,m₁,inherited,rest⟩ := commits_bind.mp committed
  obtain ⟨_,m₂,materialized,rest⟩ := commits_bind.mp rest
  obtain ⟨live,m₃,looked,loop⟩ := commits_bind.mp rest
  have first := keepsEdges_foldlM (fun _ update => FactStore.keepsEdges_update_base_importance _ _) _ _ _ _ _ inherited
  have second := FactStore.keepsEdges_update_importance_scores_bulk self _ _ _ _ materialized
  obtain ⟨ids,grown,edges⟩ := edits_expirations loop
  rw [List.nil_append] at grown
  rw [grown]
  exact Edits.after ((first.trans second).trans (keepsEdges_query _ _ _ looked)) edges

theorem keepsEdges_insertAll (summaries : List NewSummary) : KeepsEdges (insertAll self summaries) :=
  keepsEdges_foldlM (fun _ summary => keepsEdges_bind (keepsEdges_of_core (SummaryStore.keepsCore_insert self summary))
    fun _ => keepsEdges_pure _) summaries ()

theorem keepsEdges_write_summaries (plan : ConsolidationPlan) : KeepsEdges (write_summaries self plan) := by
  have cleared := fun level => keepsEdges_of_core (SummaryStore.keepsCore_delete_by_level level)
  have clusters : KeepsEdges (apply_clusters self plan.cluster_summaries) :=
    keepsEdges_bind (cleared .Cluster) fun _ => keepsEdges_insertAll _
  have global : KeepsEdges (apply_global self plan.global_summary) :=
    keepsEdges_bind (cleared .Global) fun _ => keepsEdges_insertAll _
  have recorded : KeepsEdges (record_fingerprint self plan.embedding_fingerprint) := by
    cases plan.embedding_fingerprint with
    | none => exact keepsEdges_pure _
    | some fingerprint => exact keepsEdges_bind (EmbeddingMeta.keepsEdges_record_if_absent _ _) fun _ => keepsEdges_pure _
  exact keepsEdges_bind clusters fun _ => keepsEdges_bind global fun _ => recorded

/-- The commit drops the edges of the facts it reports as expired. -/
theorem edits {plan : ConsolidationPlan} {r : ConsolidationStats × List FactId} {s t : Db}
    (committed : Commits (apply_plan self plan) s r t) : Edits (dropping r.2) s t := by
  obtain ⟨applied,m₁,deduplicated,rest⟩ := commits_bind.mp committed
  obtain ⟨_,m₂,summarized,rest⟩ := commits_bind.mp rest
  obtain ⟨_,m₃,stamped,last⟩ := commits_bind.mp rest
  obtain ⟨rfl,rfl⟩ := commits_pure.mp last
  have second := keepsEdges_guarded (keepsEdges_write_summaries _) _ _ _ summarized
  have third := keepsEdges_guarded (keepsEdges_of_core (Config.keepsCore_set_config _ _)) _ _ _ stamped
  exact (edits_apply_dedup deduplicated).before (second.trans third)

end Consolidate
end MemoryEngine
