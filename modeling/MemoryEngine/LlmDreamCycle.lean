import MemoryEngine.CycleRounds
import MemoryEngine.AdjustRange

/-! The cycle that consolidates what a proposer tells it to. The proposer is not trusted:
its groups are clamped to the facts it was shown, a fact is merged once, and a group
across scopes is skipped. -/

namespace MemoryEngine
open Time KeyedTable Transaction

structure MergeGroup where
  source_ids : List FactId
  summary : String

structure ConsolidationProposal where
  merges : List MergeGroup

/-- The consumer's choice of the facts to merge, given those of the window and the pinned ones. -/
structure DeltaProposer where
  propose : List Fact → List Fact → Except MemoryError ConsolidationProposal

structure LlmDreamCycle where
  proposer : DeltaProposer
  embedder : EmbeddingProvider

namespace LlmDreamCycle

def METHOD_VERSION : String := "llm-proposer-v1"

section merging
variable (facts : List Fact)

def by_id (id : FactId) : Option Fact := facts.find? fun f => f.id = id

/-- The facts of a group that the window has and that neither an earlier group nor the
    group itself has claimed. -/
def clamp (consumed local_seen : List FactId) : List FactId → List Fact
  | [] => []
  | id :: rest =>
    match by_id facts id with
    | none => clamp consumed local_seen rest
    | some f => if id ∈ consumed ∨ id ∈ local_seen then clamp consumed local_seen rest else f :: clamp consumed (id :: local_seen) rest

/-- The strongest importance of the sources, and zero at least. -/
def importance (sources : List Fact) : SqlReal := (sources.map Fact.base_importance).foldl max ((0 : ℚ) : WithTop ℚ)

/-- The fact that stands for the sources. -/
def merged (summary : String) (embedding : Embedding) (now : DateTime) (sources : List Fact) (scope_id : Int) : NewFact where
  content := summary
  content_hash := ""
  embedding := embedding
  fact_type := .Semantic
  t_created := now
  t_expired := none
  t_valid := none
  t_invalid := none
  source_event_id := none
  base_importance := .num (importance sources)
  access_count := 0
  last_accessed := now
  metadata := .obj []
  scope_id := scope_id
  is_pinned := false

/-- One group. Its sources are claimed only if it is merged. -/
def mergeGroup (embedder : EmbeddingProvider) (now : DateTime) (acc : List FactId × List CycleDelta) (group : MergeGroup) :
    Except MemoryError (List FactId × List CycleDelta) :=
  match clamp facts acc.1 [] group.source_ids with
  | [] => .ok acc
  | first :: rest =>
    let sources := first :: rest
    if ∃ f ∈ sources, f.scope_id ≠ first.scope_id then .ok acc else do
      let embedding ← embedder.embed group.summary
      let ids := sources.map Fact.id
      return (acc.1 ++ ids,acc.2 ++ [.Synthesize ids (merged group.summary embedding now sources first.scope_id)])

/-- The deltas of a proposal. -/
def deltas (embedder : EmbeddingProvider) (now : DateTime) (merges : List MergeGroup) : Except MemoryError (List CycleDelta) := do
  let acc ← merges.foldlM (mergeGroup facts embedder now) ([],[])
  return acc.2

end merging

def run (ctx : MemoryCtx) (cycle : LlmDreamCycle) (now : DateTime) (c : CycleContext) : Op CycleReport := do
  let window := c.time_window
  let facts ← port (FactStore.list_undreamt_in_period ctx.backend window.start window.end [] none)
  let proposal ← cycle.proposer.propose facts c.prior_wisdom
  let deltas ← deltas facts cycle.embedder now proposal.merges
  return {
    deltas := deltas
    identity := ⟨[],[],[]⟩
    metadata := ⟨DefaultDreamCycle.cycle_id c.prior_reports,now,window,facts.length,METHOD_VERSION,facts.map Fact.id⟩ }

/-- The cycle as a cycle. -/
def toDreamCycle (ctx : MemoryCtx) (cycle : LlmDreamCycle) (now : DateTime) : DreamCycle := ⟨cycle.run ctx now⟩

section plan
variable {facts : List Fact} {embedder : EmbeddingProvider} {now : DateTime}

theorem by_id_eq_some {id : FactId} {f : Fact} (found : by_id facts id = some f) : f ∈ facts ∧ f.id = id :=
  ⟨List.mem_of_find?_eq_some found,by simpa using List.find?_some found⟩

/-- What a group is left with are facts of the window that nothing has claimed. -/
theorem mem_clamp {consumed local_seen ids : List FactId} {f : Fact} (listed : f ∈ clamp facts consumed local_seen ids) :
    f ∈ facts ∧ f.id ∈ ids ∧ f.id ∉ consumed ∧ f.id ∉ local_seen := by
  induction ids generalizing local_seen with
  | nil => cases listed
  | cons id rest ih =>
    rw [clamp] at listed
    cases found : by_id facts id with
    | none =>
      rw [found] at listed
      obtain ⟨member,named,free⟩ := ih listed
      exact ⟨member,List.mem_cons_of_mem _ named,free⟩
    | some g =>
      obtain ⟨held,same⟩ := by_id_eq_some found
      rw [found] at listed
      dsimp only at listed
      by_cases taken : id ∈ consumed ∨ id ∈ local_seen
      · rw [if_pos taken] at listed
        obtain ⟨member,named,free⟩ := ih listed
        exact ⟨member,List.mem_cons_of_mem _ named,free⟩
      · rw [if_neg taken] at listed
        rcases List.mem_cons.mp listed with rfl | later
        · rw [same]
          exact ⟨held,List.mem_cons_self,not_or.mp taken⟩
        · obtain ⟨member,named,free,fresh⟩ := ih later
          exact ⟨member,List.mem_cons_of_mem _ named,free,fun seen => fresh (List.mem_cons_of_mem _ seen)⟩

/-- A group is left with a fact once. -/
theorem clamp_nodup (consumed local_seen ids : List FactId) : ((clamp facts consumed local_seen ids).map Fact.id).Nodup := by
  induction ids generalizing local_seen with
  | nil => exact List.nodup_nil
  | cons id rest ih =>
    rw [clamp]
    cases found : by_id facts id with
    | none => exact ih local_seen
    | some g =>
      dsimp only
      by_cases taken : id ∈ consumed ∨ id ∈ local_seen
      · rw [if_pos taken]
        exact ih local_seen
      · rw [if_neg taken,List.map_cons,List.nodup_cons]
        refine ⟨fun again => ?_,ih _⟩
        obtain ⟨f,listed,same⟩ := List.mem_map.mp again
        obtain ⟨_,_,_,fresh⟩ := mem_clamp listed
        rw [same,(by_id_eq_some found).2] at fresh
        exact fresh List.mem_cons_self

/-- The largest of some numbers and a first one. -/
theorem foldl_max_isGreatest (values : List SqlReal) (first : SqlReal) :
    IsGreatest {x | x = first ∨ x ∈ values} (values.foldl max first) := by
  induction values generalizing first with
  | nil => exact ⟨.inl rfl,fun x listed => (listed.resolve_right List.not_mem_nil).le⟩
  | cons value rest ih =>
    obtain ⟨held,top⟩ := ih (max first value)
    have above : max first value ≤ rest.foldl max (max first value) := top (.inl rfl)
    rw [List.foldl_cons]
    constructor
    · rcases held with same | later
      · rcases max_choice first value with left | right
        · exact .inl (same.trans left)
        · exact .inr (by rw [same,right]; exact List.mem_cons_self)
      · exact .inr (List.mem_cons_of_mem _ later)
    · rintro x (rfl | listed)
      · exact (le_max_left _ _).trans above
      · rcases List.mem_cons.mp listed with rfl | later
        · exact (le_max_right _ _).trans above
        · exact top (.inr later)

/-- The importance of sources that are not below zero is that of the most important of them. -/
theorem importance_isGreatest {sources : List Fact} (some_ : sources ≠ []) (least : ∀ f ∈ sources, ((0 : ℚ) : WithTop ℚ) ≤ f.base_importance) :
    IsGreatest {x | ∃ f ∈ sources, f.base_importance = x} (importance sources) := by
  obtain ⟨held,top⟩ := foldl_max_isGreatest (sources.map Fact.base_importance) ((0 : ℚ) : WithTop ℚ)
  constructor
  · rcases held with zero | listed
    · obtain ⟨f,member⟩ := List.exists_mem_of_ne_nil sources some_
      have below : f.base_importance ≤ importance sources := top (.inr (List.mem_map_of_mem member))
      refine ⟨f,member,le_antisymm below ?_⟩
      rw [importance,zero]
      exact least f member
    · exact List.mem_map.mp listed
  · rintro x ⟨f,member,rfl⟩
    exact top (.inr (List.mem_map_of_mem member))

/-- The delta merges facts of the window that have one scope. -/
def Merges (facts : List Fact) (embedder : EmbeddingProvider) (now : DateTime) (summary : String) (delta : CycleDelta) : Prop :=
  ∃ (sources : List Fact) (embedding : Embedding) (scope_id : Int), sources ≠ [] ∧ (∀ f ∈ sources, f ∈ facts ∧ f.scope_id = scope_id) ∧
    embedder.embed summary = .ok embedding ∧ delta = .Synthesize (sources.map Fact.id) (merged summary embedding now sources scope_id)

/-- What has been merged so far. -/
structure Merged (facts : List Fact) (embedder : EmbeddingProvider) (now : DateTime) (summaries : List String)
    (acc : List FactId × List CycleDelta) : Prop where
  claimed : acc.2.flatMap CycleDelta.gone = acc.1
  once : acc.1.Nodup
  each : ∀ delta ∈ acc.2, ∃ summary ∈ summaries, Merges facts embedder now summary delta

/-- A group is skipped, or what it claims is added. -/
theorem mergeGroup_spec {summaries : List String} {acc acc' : List FactId × List CycleDelta} {group : MergeGroup}
    (merging : mergeGroup facts embedder now acc group = .ok acc') (named : group.summary ∈ summaries)
    (before : Merged facts embedder now summaries acc) : Merged facts embedder now summaries acc' := by
  unfold mergeGroup at merging
  cases clamped : clamp facts acc.1 [] group.source_ids with
  | nil =>
    rw [clamped] at merging
    exact Except.ok.inj merging ▸ before
  | cons first rest =>
    rw [clamped] at merging
    dsimp only at merging
    by_cases straddles : ∃ f ∈ first :: rest, f.scope_id ≠ first.scope_id
    · rw [if_pos straddles] at merging
      exact Except.ok.inj merging ▸ before
    · rw [if_neg straddles] at merging
      cases embedded : embedder.embed group.summary with
      | error e =>
        rw [embedded] at merging
        cases merging
      | ok embedding =>
        rw [embedded] at merging
        rw [← Except.ok.inj merging]
        have free : ∀ f ∈ first :: rest, f ∈ facts ∧ f.id ∉ acc.1 := by
          intro f listed
          rw [← clamped] at listed
          obtain ⟨member,_,apart,_⟩ := mem_clamp listed
          exact ⟨member,apart⟩
        have distinct : ((first :: rest).map Fact.id).Nodup := by
          rw [← clamped]
          exact clamp_nodup _ _ _
        refine ⟨?_,?_,?_⟩
        · rw [List.flatMap_append,before.claimed,List.flatMap_singleton,CycleDelta.gone]
        · refine before.once.append distinct fun id claimed again => ?_
          obtain ⟨f,listed,rfl⟩ := List.mem_map.mp again
          exact (free f listed).2 claimed
        · intro delta listed
          rcases List.mem_append.mp listed with old | new
          · exact before.each delta old
          · refine ⟨group.summary,named,first :: rest,embedding,first.scope_id,List.cons_ne_nil _ _,fun f held => ?_,embedded,List.mem_singleton.mp new⟩
            exact ⟨(free f held).1,by_contra fun other => straddles ⟨f,held,other⟩⟩

theorem merged_foldlM {summaries : List String} {acc acc' : List FactId × List CycleDelta} {merges : List MergeGroup}
    (merging : merges.foldlM (mergeGroup facts embedder now) acc = .ok acc') (named : ∀ group ∈ merges, group.summary ∈ summaries)
    (before : Merged facts embedder now summaries acc) : Merged facts embedder now summaries acc' := by
  induction merges generalizing acc with
  | nil => exact Except.ok.inj merging ▸ before
  | cons group rest ih =>
    obtain ⟨here,later⟩ := List.forall_mem_cons.mp named
    rw [List.foldlM_cons] at merging
    cases one : mergeGroup facts embedder now acc group with
    | error e =>
      rw [one] at merging
      cases merging
    | ok middle =>
      rw [one] at merging
      exact ih merging later (mergeGroup_spec one here before)

/-- The deltas of a proposal merge facts of the window, each of them once at most. -/
theorem deltas_spec {merges : List MergeGroup} {made : List CycleDelta} (merging : deltas facts embedder now merges = .ok made) :
    (made.flatMap CycleDelta.gone).Nodup ∧ ∀ delta ∈ made, ∃ group ∈ merges, Merges facts embedder now group.summary delta := by
  unfold deltas at merging
  cases folded : merges.foldlM (mergeGroup facts embedder now) ([],[]) with
  | error e =>
    rw [folded] at merging
    cases merging
  | ok acc =>
    rw [folded] at merging
    have start : Merged facts embedder now (merges.map MergeGroup.summary) ([],[]) := ⟨rfl,List.nodup_nil,by simp⟩
    obtain ⟨claimed,once,each⟩ := merged_foldlM folded (fun group listed => List.mem_map_of_mem listed) start
    rw [← Except.ok.inj merging]
    refine ⟨by rw [claimed]; exact once,fun delta listed => ?_⟩
    obtain ⟨summary,named,merges⟩ := each delta listed
    obtain ⟨group,there,rfl⟩ := List.mem_map.mp named
    exact ⟨group,there,merges⟩

end plan

end LlmDreamCycle
end MemoryEngine
