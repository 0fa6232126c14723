import MemoryEngine.Frames
import MemoryEngine.Engine
import Mathlib.Data.List.Sort

/-! Applying a cycle report: one validation pass over the delta log against the
store as it stands, then one pass that applies every delta, both inside one
transaction. -/

namespace MemoryEngine
open Time KeyedTable Transaction

structure TimeWindow where
  start : DateTime
  «end» : DateTime

structure IdentityOutput where
  anchors : List FactId
  core : List FactId
  predictions : List FactId

/-- One mutation a dream cycle proposes. -/
inductive CycleDelta where
  | AddFact (new_fact : NewFact)
  | AdjustScore (fact_id : FactId) (adjustment : Int16)
  | Quarantine (fact_id : FactId) (reason : String)
  | Promote (fact_id : FactId) (provenance : PromotionProvenance)
  | TagOutcome (fact_id : FactId) (outcome : Outcome)
  | Supersede (old_id new_id : FactId)
  | Synthesize (sources : List FactId) (new_fact : NewFact)

structure CycleMetadata where
  cycle_id : Nat
  ran_at : DateTime
  time_window : TimeWindow
  facts_selected : Nat
  method_version : String
  processed_ids : List FactId

structure CycleReport where
  deltas : List CycleDelta
  identity : IdentityOutput
  metadata : CycleMetadata

structure ApplyResult where
  facts_added : Nat := 0
  scores_adjusted : Nat := 0
  quarantined : Nat := 0
  promoted : Nat := 0
  outcomes_tagged : Nat := 0
  superseded : Nat := 0
  synthesized : Nat := 0
  new_fact_ids : List FactId := []
  synthesized_fact_ids : List FactId := []
  promoted_fact_ids : List FactId := []

/-- The double nearest to 0.05. -/
def IMPORTANCE_STEP : SqlReal := ((3602879701896397 / 2 ^ 56 : ℚ) : WithTop ℚ)

def MAX_ADJUSTMENT : Int16 := 2

/-- The serializer of the cycle history kept in the configuration. -/
structure HistoryCodec where
  from_str : String → Except MemoryError (List CycleMetadata)
  to_string : List CycleMetadata → String

def LAST_DREAM_CYCLE_AT : String := "last_dream_cycle_at"
def DREAM_CYCLE_HISTORY : String := "dream_cycle_history"
def DREAM_CYCLE_HISTORY_MAX : Nat := 8

def PromotionProvenance.to_value (p : PromotionProvenance) : Json := Json.object
  [("source_count",.int p.source_count),("session_count",.int p.session_count),
    ("date_range_start",.str p.date_range_start.serde_text),("date_range_end",.str p.date_range_end.serde_text),
    ("confidence",Json.ofF64 p.confidence),("method_version",.str p.method_version),
    ("representative_ids",.arr (p.representative_ids.map .int))]

namespace Cycle
variable (self : SqliteBackend)

def ensure_active (f : Fact) (expired_in_report : List FactId) : Except MemoryError Unit :=
  if f.t_expired.isSome ∨ f.id ∈ expired_in_report then .error (.Cycle (.AlreadyExpired f.id)) else .ok ()

def require_fact (id : FactId) (missing : CycleError) : Sql Fact := do
  match ← attempt (FactStore.get self id) with
  | .ok f => return f
  | .error (.NotFound _) => throw (.Cycle missing)
  | .error e => throw e

def validate_new_fact (nf : NewFact) : Sql Unit := do
  require (nf.embedding.length = self.embed_dim) (.EmbeddingDimension self.embed_dim nf.embedding.length)
  require (nf.base_importance.is_finite = true ∧ (F64.ofRat 0).le nf.base_importance = true ∧
      nf.base_importance.le (F64.ofRat 1) = true)
    (.Conflict (.PolicyParameter s!"base_importance must be in [0, 1], got {self.display nf.base_importance}"))
  check_str_size nf.content "fact content"
  check_json_size self.float_text nf.metadata "fact metadata"

/-- A fact that must exist, be active and not be expired earlier in the report. -/
def require_active (id : FactId) (missing : CycleError) (expired_in_report : List FactId) : Sql Unit := do
  let f ← require_fact self id missing
  ensure_active f expired_in_report

/-- Check one delta; the result is the set of ids the report has expired so far. -/
def validateDelta (expired_in_report : List FactId) : CycleDelta → Sql (List FactId)
  | .AddFact nf => do
    validate_new_fact self nf
    return expired_in_report
  | .AdjustScore fact_id adjustment => do
    require (¬ adjustment.abs > MAX_ADJUSTMENT) (.Cycle (.AdjustmentOutOfRange fact_id adjustment.toInt))
    require_active self fact_id (.UnknownFact fact_id) expired_in_report
    return expired_in_report
  | .Quarantine fact_id _ => do
    require_active self fact_id (.UnknownFact fact_id) expired_in_report
    return fact_id :: expired_in_report
  | .Promote fact_id _ => do
    require_active self fact_id (.UnknownFact fact_id) expired_in_report
    return expired_in_report
  | .TagOutcome fact_id _ => do
    let _ ← require_fact self fact_id (.UnknownFact fact_id)
    return expired_in_report
  | .Supersede old_id new_id => do
    require_active self old_id (.SupersedeMissing old_id) expired_in_report
    require_active self new_id (.SupersedeMissing new_id) expired_in_report
    return old_id :: expired_in_report
  | .Synthesize sources new_fact => do
    validate_new_fact self new_fact
    require (sources ≠ []) (.Cycle .SynthesizeNoSources)
    sources.foldlM (fun expired src => do
      require_active self src (.UnknownFact src) expired
      return src :: expired) expired_in_report

def validate_report (report : CycleReport) : Sql Unit := do
  let _ ← report.deltas.foldlM (validateDelta self) []
  report.metadata.processed_ids.foldlM (fun _ id => do
    let _ ← require_fact self id (.UnknownFact id)) ()

/-- The accumulators of the apply pass. -/
structure ApplyPass where
  result : ApplyResult := {}
  to_index : List (FactId × Embedding) := []
  expired_ids : List FactId := []
  supersede_edges : List (FactId × FactId × Int) := []
  supersede_new_ids : List FactId := []
  synthesize_new_ids : List FactId := []

def adjusted (adjustment : Int16) (current : SqlReal) : SqlReal :=
  max ((0 : ℚ) : WithTop ℚ) (min ((1 : ℚ) : WithTop ℚ)
    (self.mul_add (((adjustment.toInt : ℚ) : WithTop ℚ) : SqlReal) IMPORTANCE_STEP current))

/-- The pinned copy of a fact in the root scope, with its provenance. -/
def promotedCopy (source : Fact) (provenance : PromotionProvenance) (now : DateTime) : NewFact where
  content := source.content
  content_hash := ""
  embedding := source.embedding
  fact_type := source.fact_type
  t_created := now
  t_expired := none
  t_valid := none
  t_invalid := none
  source_event_id := none
  base_importance := .num source.base_importance
  access_count := 0
  last_accessed := now
  metadata := .obj (Json.insertField "promotion_provenance" provenance.to_value source.metadata.fields)
  scope_id := 1
  is_pinned := true

def outcomeEvent (fact_id : FactId) (outcome : Outcome) (now : DateTime) : NewEvent where
  timestamp := now
  event_type := .OutcomeSignal
  payload := Json.object [("fact_id",.int fact_id),("outcome",.str outcome.name)]
  source := "dream_cycle"
  session_id := none
  scope_id := 1
  origin_node_id := "local"
  sequence_id := 0
  created_at := none

/-- The edge from a fact to the one it supersedes. -/
def supersedesEdge (new_id old_id scope_id : Int) (now : DateTime) : NewEdge where
  source_fact_id := new_id
  target_fact_id := old_id
  relation_type := .Supersedes
  weight := F64.ofRat 1
  t_created := now
  t_expired := none
  scope_id := scope_id

/-- Expire one fact and link its successor to it. -/
def supersede (now : DateTime) (new_id old_id scope_id : Int) (pass : ApplyPass) : Sql ApplyPass := do
  FactStore.expire old_id now
  let edge_id ← EdgeStore.insert (supersedesEdge new_id old_id scope_id now)
  return { pass with
    expired_ids := pass.expired_ids ++ [old_id]
    supersede_edges := pass.supersede_edges ++ [(new_id,old_id,edge_id)] }

/-- One source of a synthesis. The range spans the creation times of the sources
    seen so far and is absent before the first of them. -/
def synthesizeSource (now : DateTime) (synth_id scope_id : Int) (acc : ApplyPass × Option (DateTime × DateTime))
    (src : FactId) : Sql (ApplyPass × Option (DateTime × DateTime)) := do
  let src_fact ← FactStore.get self src
  let range := match acc.2 with
    | none => (src_fact.t_created,src_fact.t_created)
    | some (first,last) => (min first src_fact.t_created,max last src_fact.t_created)
  let pass ← supersede now synth_id src scope_id acc.1
  return (pass,some range)

def synthesisProvenance (sources : List FactId) (range : DateTime × DateTime) : PromotionProvenance where
  source_count := min sources.length (2 ^ 32 - 1)
  session_count := 0
  date_range_start := range.1
  date_range_end := range.2
  confidence := F64.ofRat 1
  method_version := "synthesize-v1"
  representative_ids := sources.take 5

def applyDelta (now : DateTime) (pass : ApplyPass) : CycleDelta → Sql ApplyPass
  | .AddFact nf => do
    let id ← FactStore.insert self nf
    return { pass with
      result := { pass.result with
        new_fact_ids := pass.result.new_fact_ids ++ [id]
        facts_added := pass.result.facts_added + 1 }
      to_index := pass.to_index ++ [(id,nf.embedding)] }
  | .AdjustScore fact_id adjustment => do
    let current ← FactStore.get self fact_id
    FactStore.update_base_importance fact_id (.num (adjusted self adjustment current.base_importance))
    return { pass with result := { pass.result with scores_adjusted := pass.result.scores_adjusted + 1 } }
  | .Quarantine fact_id reason => do
    FactStore.expire fact_id now
    FactStore.merge_metadata fact_id (Json.object
      [("quarantine",Json.object [("reason",.str reason),("at",.str now.to_rfc3339)])])
    return { pass with
      expired_ids := pass.expired_ids ++ [fact_id]
      result := { pass.result with quarantined := pass.result.quarantined + 1 } }
  | .Promote fact_id provenance => do
    let source ← FactStore.get self fact_id
    require (source.embedding.length = self.embed_dim) (.EmbeddingDimension self.embed_dim source.embedding.length)
    EmbeddingMeta.require_present
    let promoted_id ← FactStore.insert self (promotedCopy source provenance now)
    let _ ← LineageStore.insert ⟨promoted_id,[fact_id]⟩ provenance
    return { pass with
      result := { pass.result with
        promoted := pass.result.promoted + 1
        promoted_fact_ids := pass.result.promoted_fact_ids ++ [promoted_id] }
      to_index := pass.to_index ++ [(promoted_id,source.embedding)] }
  | .TagOutcome fact_id outcome => do
    let _ ← EventStore.insert self (outcomeEvent fact_id outcome now)
    return { pass with result := { pass.result with outcomes_tagged := pass.result.outcomes_tagged + 1 } }
  | .Supersede old_id new_id => do
    let new_fact ← FactStore.get self new_id
    let pass ← supersede now new_id old_id new_fact.scope_id pass
    return { pass with
      supersede_new_ids := pass.supersede_new_ids ++ [new_id]
      result := { pass.result with superseded := pass.result.superseded + 1 } }
  | .Synthesize sources new_fact => do
    let synth_id ← FactStore.insert self new_fact
    let (pass,range) ← sources.foldlM (synthesizeSource self now synth_id new_fact.scope_id) (pass,none)
    let _ ← LineageStore.insert ⟨synth_id,sources⟩
      (synthesisProvenance sources (range.getD (new_fact.t_created,new_fact.t_created)))
    return { pass with
      synthesize_new_ids := pass.synthesize_new_ids ++ [synth_id]
      result := { pass.result with
        synthesized_fact_ids := pass.result.synthesized_fact_ids ++ [synth_id]
        synthesized := pass.result.synthesized + 1 }
      to_index := pass.to_index ++ [(synth_id,new_fact.embedding)] }

/-- The delta brings a vector of its own. -/
def addsVector : CycleDelta → Bool
  | .AddFact _ => true
  | .Synthesize _ _ => true
  | _ => false

/-- A report that brings vectors of its own needs a store with an identity. -/
def require_identity (report : CycleReport) : Sql Unit :=
  guarded (report.deltas.any addsVector = true) EmbeddingMeta.require_present

/-- Every fact the cycle creates or leaves active, sorted without duplicates. -/
def toMark (report : CycleReport) (pass : ApplyPass) : List FactId :=
  ((report.metadata.processed_ids ++ pass.result.new_fact_ids ++ pass.result.promoted_fact_ids ++
    pass.supersede_new_ids ++ pass.synthesize_new_ids).insertionSort (· ≤ ·)).dedup

/-- Append to the history and keep its last entries. -/
def append_cycle_history (codec : HistoryCodec) (metadata : CycleMetadata) : Sql Unit := do
  let history ← match ← Config.get_config DREAM_CYCLE_HISTORY with
    | some s => codec.from_str s
    | none => pure []
  let history := history ++ [metadata]
  Config.set_config DREAM_CYCLE_HISTORY (codec.to_string (history.drop (history.length - DREAM_CYCLE_HISTORY_MAX)))

def apply_cycle_deltas_atomic (codec : HistoryCodec) (report : CycleReport) (now : DateTime) : Sql ApplyPass := do
  validate_report self report
  require_identity report
  let pass ← report.deltas.foldlM (applyDelta self now) {}
  FactStore.mark_dream_cycled (toMark report pass) report.metadata.cycle_id now
  Config.set_config LAST_DREAM_CYCLE_AT report.metadata.time_window.end.to_rfc3339
  append_cycle_history codec report.metadata
  return pass

end Cycle

/-- Replay one supersede edge on the graph. -/
def mirrorSupersede (graph : MemoryGraph) : FactId × FactId × Int → MemoryGraph
  | (new_id,old_id,edge_id) =>
    (graph.remove_edges_by_fact old_id).add_edge new_id old_id ⟨edge_id,.Supersedes,F64.ofRat 1⟩

/-- Apply a report to the store, then replay its supersede edges on the graph. -/
def apply_cycle_report (ctx : MemoryCtx) (codec : HistoryCodec) (report : CycleReport) (now : DateTime) : Op ApplyResult := do
  ctx.ensure_open
  ctx.ensure_writable
  let pass ← port (Cycle.apply_cycle_deltas_atomic ctx.backend codec report now)
  mirror fun graph => pass.supersede_edges.foldl mirrorSupersede graph
  return pass.result

end MemoryEngine
