import MemoryEngine.Planning
import MemoryEngine.Ingest

/-! The fusion passes of a consolidation: greedy single-linkage clusters of the facts
that the dedup pass keeps, a summary of each large enough cluster, and one summary of
the summaries. -/

namespace MemoryEngine
open Time Rounding

/-- Text and vector of an item to summarize. -/
structure SummarizableContent where
  text : String
  embedding : Embedding

/-- The consumer's summarizer. -/
structure SummaryGenerator where
  summarize : List SummarizableContent → Except MemoryError String

structure ClusterParams where
  embed_dim : Nat
  min_cluster_size : Nat
  cluster_threshold : F32
  max_facts : Nat
  now : DateTime

structure ClusterComputed where
  ran : Bool
  summaries : List NewSummary

namespace Fusion

section clusters
variable {α : Type} (similar : α → α → Bool)

/-- The items similar to an anchor, in their order. -/
def near (anchor : α) (items : List α) : List α := items.filter (similar anchor)

def far (anchor : α) (items : List α) : List α := items.filter fun k => !similar anchor k

theorem near_far (anchor : α) (items : List α) : (near similar anchor items ++ far similar anchor items).Perm items :=
  List.filter_append_perm (similar anchor) items

theorem length_near_far (anchor : α) (items : List α) :
    (near similar anchor items).length + (far similar anchor items).length = items.length := by
  rw [← List.length_append]
  exact (near_far similar anchor items).length_eq

/-- Move to the cluster what is similar to an anchor in it, anchor after anchor, until
    no anchor is left. -/
def expand (anchors cluster unassigned : List α) : List α × List α :=
  match anchors with
  | [] => (cluster,unassigned)
  | anchor :: rest =>
    expand (rest ++ near similar anchor unassigned) (cluster ++ near similar anchor unassigned) (far similar anchor unassigned)
termination_by anchors.length + unassigned.length
decreasing_by
  have parts := length_near_far similar anchor unassigned
  simp only [List.length_append,List.length_cons]
  omega

/-- Nothing is lost between the cluster and what is left. -/
theorem expand_perm (anchors cluster unassigned : List α) :
    ((expand similar anchors cluster unassigned).1 ++ (expand similar anchors cluster unassigned).2).Perm (cluster ++ unassigned) := by
  fun_induction expand similar anchors cluster unassigned with
  | case1 cluster unassigned => exact List.Perm.refl _
  | case2 cluster unassigned anchor rest ih =>
    refine ih.trans ?_
    rw [List.append_assoc]
    exact (near_far similar anchor unassigned).append_left cluster

theorem expand_grows (anchors cluster unassigned : List α) :
    cluster.length ≤ (expand similar anchors cluster unassigned).1.length := by
  fun_induction expand similar anchors cluster unassigned with
  | case1 cluster unassigned => exact le_refl _
  | case2 cluster unassigned anchor rest ih =>
    refine le_trans ?_ ih
    simp

/-- The clusters in the order of their first members. -/
def greedy_cluster (unassigned : List α) : List (List α) :=
  match unassigned with
  | [] => []
  | i :: rest =>
    (expand similar [i] [i] rest).1 :: greedy_cluster (expand similar [i] [i] rest).2
termination_by unassigned.length
decreasing_by
  have parts := (expand_perm similar [i] [i] rest).length_eq
  have grown := expand_grows similar [i] [i] rest
  simp only [List.length_append,List.length_cons,List.length_nil] at parts grown ⊢
  omega

/-- Each item is in exactly one cluster. -/
theorem greedy_cluster_perm (items : List α) : (greedy_cluster similar items).flatten.Perm items := by
  fun_induction greedy_cluster similar items with
  | case1 => exact List.Perm.refl _
  | case2 i rest ih => exact (ih.append_left _).trans (expand_perm similar [i] [i] rest)

end clusters

/-- The scope most of the facts are in; the lowest id wins a tie. -/
def majority_scope (scope_ids : List Int) : Int :=
  let count := fun id => scope_ids.countP (· == id)
  (scope_ids.dedup.foldl (fun best id => match best with
    | none => some id
    | some chosen => if count id > count chosen ∨ count id = count chosen ∧ id < chosen then some id else some chosen) none).getD 1

variable (similarity : Embedding → Embedding → F32) (generator : SummaryGenerator) (embedder : EmbeddingProvider)

/-- More similar than the threshold. -/
def linked (threshold : F32) (a b : Fact) : Bool :=
  let sim := F32.datum (similarity a.embedding b.embedding)
  (F32.datum threshold).le sim && !sim.le (F32.datum threshold)

def summarize_and_embed (items : List SummarizableContent) (embed_dim : Nat) : Except MemoryError (String × Embedding) := do
  let text ← generator.summarize items
  let embedding ← embedder.embed text
  if embedding.length ≠ embed_dim then .error (.EmbeddingDimension embed_dim embedding.length) else .ok (text,embedding)

/-- The summary of one cluster. -/
def cluster_summary (params : ClusterParams) (cluster : List Fact) : Except MemoryError NewSummary := do
  let (summary_text,summary_embedding) ← summarize_and_embed generator embedder
    (cluster.map fun f => ⟨f.content,f.embedding⟩) params.embed_dim
  return ⟨summary_text,summary_embedding,.Cluster,cluster.map Fact.id,params.now,majority_scope (cluster.map Fact.scope_id)⟩

def compute_clusters (facts : List Fact) (params : ClusterParams) : Except MemoryError ClusterComputed :=
  if facts.length > params.max_facts then .ok ⟨false,[]⟩ else do
    let clusters := greedy_cluster (linked similarity params.cluster_threshold) facts
    let summaries ← (clusters.filter fun cluster => !(cluster.length < params.min_cluster_size)).mapM
      (cluster_summary generator embedder params)
    return ⟨true,summaries⟩

/-- The global summary belongs to the root scope. -/
def compute_global (cluster_summaries : List NewSummary) (embed_dim : Nat) (now : DateTime) :
    Except MemoryError (Option NewSummary) :=
  if cluster_summaries = [] then .ok none else do
    let (global_text,global_embedding) ← summarize_and_embed generator embedder
      (cluster_summaries.map fun s => ⟨s.content,s.embedding⟩) embed_dim
    return some ⟨global_text,global_embedding,.Global,cluster_summaries.flatMap NewSummary.source_fact_ids,now,1⟩

end Fusion

/-- A consolidation with this configuration, summarizer and embedder. -/
def ConsolidationRun.of (parse : String → Except String DateTime) (similarity : Embedding → Embedding → F32)
    (generator : SummaryGenerator) (embedder : EmbeddingProvider) (embed_dim : Nat) (dedup_threshold cluster_threshold : F32)
    (min_cluster_size : Nat) : ConsolidationRun where
  parse_from_rfc3339 := parse
  similarity := similarity
  dedup_threshold := dedup_threshold
  cluster_threshold := cluster_threshold
  min_cluster_size := min_cluster_size
  compute_clusters := fun facts now => do
    let cluster ← Fusion.compute_clusters similarity generator embedder facts
      ⟨embed_dim,min_cluster_size,cluster_threshold,MAX_FACTS_FOR_CLUSTERING,now⟩
    return (cluster.ran,cluster.summaries)
  compute_global := fun summaries now => Fusion.compute_global generator embedder summaries embed_dim now
  fingerprint := embedder.fingerprint

end MemoryEngine
