import MemoryEngine.GraphEdit

/-! The importance sweep: score every active fact against its degree in the
graph, then expire the facts below the threshold in one transaction. -/

namespace MemoryEngine
open Time KeyedTable Transaction GraphEdit

structure ForgetPolicy where
  half_life_days : F64
  half_life_overrides : List (FactType × F64)
  decay_exempt_types : List FactType
  min_importance : F64
  recency_weight : F64
  frequency_weight : F64
  graph_degree_weight : F64
  base_importance_weight : F64

namespace ForgetPolicy

/-- An explicit half-life re-enables decay of an exempt type. -/
def is_decay_exempt (policy : ForgetPolicy) (fact_type : FactType) : Bool :=
  policy.decay_exempt_types.contains fact_type && !(policy.half_life_overrides.any (fun entry => entry.1 == fact_type))

def positive (x : F64) : Bool := x.is_finite && (F64.ofRat 0).lt x

def weight_ok (x : F64) : Bool := x.is_finite && !(x.lt (F64.ofRat 0))

def validate (policy : ForgetPolicy) : Except MemoryError Unit :=
  if !positive policy.half_life_days then .error (.Conflict (.PolicyParameter "half_life_days must be > 0")) else
  match policy.half_life_overrides.find? (fun entry => !positive entry.2) with
  | some (ft,_) => .error (.Conflict (.PolicyParameter s!"half_life for {ft.name} must be > 0"))
  | none =>
    if !((F64.ofRat 0).le policy.min_importance && policy.min_importance.le (F64.ofRat 1)) then
      .error (.Conflict (.PolicyParameter "min_importance must be in [0, 1]")) else
    if !(weight_ok policy.recency_weight && weight_ok policy.frequency_weight && weight_ok policy.graph_degree_weight &&
        weight_ok policy.base_importance_weight) then
      .error (.Conflict (.PolicyParameter "weights must be >= 0"))
    else .ok ()

end ForgetPolicy

structure PruneStats where
  facts_expired : Nat
  facts_evaluated : Nat

def Fact.scoring (f : Fact) : FactScoringRow :=
  ⟨f.id,f.fact_type,f.last_accessed,f.access_count,f.base_importance,f.is_pinned⟩

def FactStore.list_active_scoring : Sql (List FactScoringRow) := do
  let rows ← query fun t => t.facts.rows.filter (fun f => f.t_expired.isNone)
  let rows ← readRows (fun f : Fact => f.last_accessed.Readable) rows
  return rows.map Fact.scoring

namespace Forget
variable (self : SqliteBackend)

/-- Expire facts with their edges, one after the other. -/
def expireAll (to_expire : List FactId) (now : DateTime) : Sql Unit :=
  to_expire.foldlM (fun _ fact_id => do
    FactStore.expire fact_id now
    let _ ← EdgeStore.expire_by_fact fact_id now) ()

def prune_atomic (scored : List (FactId × F64)) (to_expire : List FactId) (now : DateTime) :
    Sql (PruneStats × List FactId) := do
  FactStore.update_importance_scores_bulk self scored
  expireAll to_expire now
  return (⟨to_expire.length,scored.length⟩,to_expire)

/-- The scores of the active facts. The score itself is floating point and comes
    as a parameter. -/
def score (compute_importance : FactScoringRow → Nat → DateTime → ForgetPolicy → F64) (g : MemoryGraph)
    (active_facts : List FactScoringRow) (now : DateTime) (policy : ForgetPolicy) : List (FactId × F64) :=
  active_facts.map (fun fact => (fact.id,compute_importance fact (g.degree fact.id) now policy))

/-- The facts below the threshold that are neither pinned nor exempt. -/
def belowThreshold (active_facts : List FactScoringRow) (scored : List (FactId × F64)) (policy : ForgetPolicy) : List FactId :=
  (active_facts.zip scored).filterMap (fun entry =>
    if entry.1.is_pinned || policy.is_decay_exempt entry.1.fact_type then none
    else if entry.2.2.lt policy.min_importance then some entry.1.id else none)

end Forget

def prune (ctx : MemoryCtx) (compute_importance : FactScoringRow → Nat → DateTime → ForgetPolicy → F64) (policy : ForgetPolicy)
    (now : DateTime) : Op (PruneStats × List FactId) := do
  ctx.ensure_open
  ctx.ensure_writable
  policy.validate
  let active_facts ← port FactStore.list_active_scoring
  let engine ← get
  let scored := Forget.score compute_importance engine.graph active_facts now policy
  let (stats,expired) ← port (Forget.prune_atomic ctx.backend scored (Forget.belowThreshold active_facts scored policy) now)
  mirror fun g => expired.foldl MemoryGraph.remove_edges_by_fact g
  return (stats,expired)

theorem FactStore.commits_list_active_scoring {s t : Db} {rows : List FactScoringRow} : Commits FactStore.list_active_scoring s rows t ↔
    rows = s.activeFacts.map Fact.scoring ∧ (∀ f ∈ s.activeFacts, f.last_accessed.Readable) ∧ t = s := by
  simp only [FactStore.list_active_scoring,commits_bind,commits_query,commits_lift,commits_pure,readRows_ok]
  constructor
  · rintro ⟨_,_,⟨rfl,rfl⟩,_,_,⟨⟨rfl,readable⟩,rfl⟩,rfl,rfl⟩
    exact ⟨rfl,readable,rfl⟩
  · rintro ⟨rfl,readable,rfl⟩
    exact ⟨_,_,⟨rfl,rfl⟩,_,_,⟨⟨rfl,readable⟩,rfl⟩,rfl,rfl⟩

theorem FactStore.keepsEdges_list_active_scoring : KeepsEdges FactStore.list_active_scoring :=
  keepsEdges_bind keepsEdges_query fun _ => keepsEdges_bind (keepsEdges_lift _) fun _ => keepsEdges_pure _

namespace Forget
variable {self : SqliteBackend}

theorem edits_expireAll {to_expire : List FactId} {now : DateTime} {s t : Db} {u : Unit}
    (committed : Commits (expireAll to_expire now) s u t) : Edits (dropping to_expire) s t := by
  unfold expireAll at committed
  induction to_expire generalizing s with
  | nil =>
    obtain ⟨_,rfl⟩ := commits_pure.mp committed
    exact Edits.dropping_none (SameEdges.refl _)
  | cons fact_id rest ih =>
    rw [List.foldlM_cons] at committed
    obtain ⟨_,m,first,tail⟩ := commits_bind.mp committed
    obtain ⟨_,m₁,expired,cascade⟩ := commits_bind.mp first
    obtain ⟨n,m₂,cascaded,last⟩ := commits_bind.mp cascade
    obtain ⟨_,rfl⟩ := commits_pure.mp last
    have here := Edits.after (FactStore.keepsEdges_expire _ _ _ _ _ expired) (EdgeStore.edits_expire_by_fact cascaded)
    exact here.dropping_trans (ih tail)

theorem edits {scored : List (FactId × F64)} {to_expire : List FactId} {now : DateTime} {s t : Db}
    {r : PruneStats × List FactId} (committed : Commits (prune_atomic self scored to_expire now) s r t) :
    Edits (dropping r.2) s t := by
  obtain ⟨_,m,materialized,rest⟩ := commits_bind.mp committed
  obtain ⟨_,m',expired,last⟩ := commits_bind.mp rest
  obtain ⟨rfl,rfl⟩ := commits_pure.mp last
  exact Edits.after (FactStore.keepsEdges_update_importance_scores_bulk self _ _ _ _ materialized) (edits_expireAll expired)

theorem replays (expired : List FactId) : Replays (dropping expired) (fun g => expired.foldl MemoryGraph.remove_edges_by_fact g) :=
  fun g _ => MemoryGraph.view_foldl_remove expired g

end Forget
end MemoryEngine
