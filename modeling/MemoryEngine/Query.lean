import MemoryEngine.Floats
import MemoryEngine.Ranking
import MemoryEngine.Engine

/-! Composed queries. One with a text or an embedding goes through the search
channels, any other one through the rows in order of importance; the filters that
SQL does not apply run over the fetched facts. -/

namespace MemoryEngine
open Time KeyedTable Transaction Ranking

inductive SearchMode where
  | Fts
  | Vector
  | Hybrid
deriving DecidableEq

/-- Which source a result came from. -/
inductive MatchType where
  | Fts
  | Vector
  | Both
  | ImportanceRank
  | Archive
deriving DecidableEq

structure MemoryQuery where
  scope : Option ScopeQuery := none
  period_start : Option DateTime := none
  period_end : Option DateTime := none
  text : Option String := none
  embedding : Option Embedding := none
  search_mode : Option SearchMode := none
  fact_type : Option FactType := none
  min_importance_score : Option F64 := none
  pinned_only : Bool := false
  limit : Option Nat := none
  valid_at : Option DateTime := none
  include_expired_probe : Bool := false
  include_archives : Bool := false

def DEFAULT_LIMIT : Nat := 50

namespace MemoryQuery

def effective_limit (query : MemoryQuery) : Nat := query.limit.getD DEFAULT_LIMIT
def has_search (query : MemoryQuery) : Bool := query.text.isSome || query.embedding.isSome
def has_period (query : MemoryQuery) : Bool := query.period_start.isSome || query.period_end.isSome

end MemoryQuery

structure SearchQuery where
  text : Option String := none
  embedding : Option Embedding := none
  mode : SearchMode
  limit : Nat
  rerank_depth : Option Nat := none
  valid_at : Option DateTime := none
  fact_type : Option FactType := none
  scope : Option ScopeQuery := none

structure SearchResult where
  fact : Fact
  score : F64
  match_type : MatchType

structure QueryDiagnostics where
  candidates_before_filter : Nat := 0
  results_returned : Nat := 0
  expired_matches : Option Nat := none
  fts_candidates : Nat := 0
  vector_candidates : Nat := 0
  archive_paks_scanned : Nat := 0

structure QueryResponse where
  results : List SearchResult
  diagnostics : QueryDiagnostics

/-- A query that ran, or one whose scope does not exist. -/
inductive QueryExecution where
  | ScopeMissing
  | Executed (response : QueryResponse)

/-- The conditions both channels push into SQL. Expired rows never pass. -/
structure FactFilter where
  fact_type : Option FactType
  scope_ids : Option (List Int)

def FactFilter.admits (filter : FactFilter) (f : Fact) : Bool :=
  f.t_expired.isNone && filter.fact_type.all (fun ft => f.fact_type == ft) && filter.scope_ids.all (fun ids => ids.contains f.scope_id)

/-- The index of vectors: how many it holds, and the facts it proposes for an
    embedding, a search width and a number of neighbours. -/
structure HnswStrategy where
  n_items : Nat
  nearest : Embedding → Nat → Nat → List FactId

/-- What a search takes from linked libraries: the BM25 score of a row for a text
    among all rows, none where the row does not match; the cosine similarity; the
    lower case of a text; the vector index where it is in use; and the orders that
    SQLite and the standard library leave open. -/
structure SearchLibraries where
  bm25 : String → List Fact → Fact → Option SqlReal
  cosine_similarity : Embedding → Embedding → F32
  to_lowercase : String → String
  hnsw : Option HnswStrategy
  rows : Shuffle Fact
  scores : Shuffle (FactId × F64)

def USIZE_MAX : Nat := 2 ^ 64 - 1
def I64_MAX : Nat := 2 ^ 63 - 1
def U32_MAX : Nat := 2 ^ 32 - 1

/-- A limit as SQL takes it. -/
def limit_i64 (limit : Nat) : Nat := min limit I64_MAX

/-- Three times a limit, as far as it fits. -/
def tripled (limit : Nat) : Nat := max (min (limit * 3) USIZE_MAX) limit

namespace Search
variable (self : SqliteBackend) (libraries : SearchLibraries)

/-- Full-text matches from the lowest BM25 score up. A text the index cannot parse
    matches nothing. -/
def lexical_search (text : String) (filter : FactFilter) (k : Nat) : Sql (List (FactId × F64)) :=
  query fun t =>
    let matched := ((libraries.rows.order t.facts.rows).filter filter.admits).filterMap fun f =>
      (libraries.bm25 text t.facts.rows f).map fun score => (f.id,score)
    ((descending (fun entry => OrderDual.toDual entry.2) matched).take (limit_i64 k)).map fun entry => (entry.1,F64.num entry.2)

def lexical_count_expired (text : String) (fact_type : Option FactType) (scope_ids : Option (List Int)) : Sql Nat :=
  query fun t => t.facts.rows.countP fun f => (libraries.bm25 text t.facts.rows f).isSome && f.t_expired.isSome &&
    fact_type.all (fun ft => f.fact_type == ft) && scope_ids.all (fun ids => ids.contains f.scope_id)

def deserialize_embedding (dim : Nat) (f : Fact) : Except MemoryError Embedding :=
  if f.embedding.length = dim then .ok f.embedding else .error (.EmbeddingDimension dim f.embedding.length)

/-- The similarity of one stored fact. -/
def score_row (embedding : Embedding) (f : Fact) : Except MemoryError (FactId × F64) := do
  let stored ← deserialize_embedding self.embed_dim f
  return (f.id,(libraries.cosine_similarity embedding stored).toF64)

/-- Similarities from the highest down; a NaN compares with nothing. -/
def by_score (scored : List (FactId × F64)) : List (FactId × F64) := sortBy (fun entry => entry.2.rank) libraries.scores scored

/-- Score every row the filter admits. -/
def vector_search_filtered (embedding : Embedding) (limit : Nat) (filter : FactFilter) : Sql (List (FactId × F64)) := do
  if embedding.length = self.embed_dim then
    let rows ← query fun t => (libraries.rows.order t.facts.rows).filter filter.admits
    let scored ← (rows.mapM (score_row self libraries embedding) : Except MemoryError (List (FactId × F64)))
    return (by_score libraries (libraries.scores.order scored)).take limit
  else throw (.EmbeddingDimension self.embed_dim embedding.length)

def OVERFETCH_FACTOR : Nat := 3
def DEFAULT_EF_SEARCH : Nat := 100
def MAX_WIDEN_ATTEMPTS : Nat := 3

/-- The admitted rows among the proposed ones, scored in the order of the proposal. -/
def score_candidates (embedding : Embedding) (filter : FactFilter) (candidates : List FactId) : Sql (List (FactId × F64)) := do
  let surviving ← query fun t => t.facts.rows.filter fun f => candidates.contains f.id && filter.admits f
  let scored ← (surviving.mapM (score_row self libraries embedding) : Except MemoryError (List (FactId × F64)))
  return candidates.filterMap fun id => (scored.find? (fun entry => entry.1 == id))

/-- Ask the index, more widely each time, until enough candidates survive. -/
def widen (hnsw : HnswStrategy) (embedding : Embedding) (limit : Nat) (filter : FactFilter) :
    Nat → Nat → Nat → Sql (Option (List (FactId × F64)))
  | 0,_,_ => return none
  | attempts + 1,ef,overfetch => do
    let results ← score_candidates self libraries embedding filter (hnsw.nearest embedding ef (min overfetch hnsw.n_items))
    if limit ≤ results.length then return some results else
      widen hnsw embedding limit filter attempts (min (ef * 2) USIZE_MAX) (min (overfetch * 2) USIZE_MAX)

def hnsw_search (hnsw : HnswStrategy) (embedding : Embedding) (limit : Nat) (filter : FactFilter) : Sql (List (FactId × F64)) := do
  if embedding.length = self.embed_dim then
    if hnsw.n_items = 0 then return [] else do
      match ← widen self libraries hnsw embedding limit filter MAX_WIDEN_ATTEMPTS DEFAULT_EF_SEARCH
          (min (limit * OVERFETCH_FACTOR) USIZE_MAX) with
      | some results => return (by_score libraries results).take limit
      | none => vector_search_filtered self libraries embedding limit filter
  else throw (.EmbeddingDimension self.embed_dim embedding.length)

def vector_search (embedding : Embedding) (filter : FactFilter) (k : Nat) : Sql (List (FactId × F64)) :=
  match libraries.hnsw with
  | some hnsw => hnsw_search self libraries hnsw embedding k filter
  | none => vector_search_filtered self libraries embedding k filter

def RRF_K : Nat := 60

/-- The weight of a rank. -/
def rrf_weight (k rank : Nat) : F64 :=
  F64.ofDatum (binary64.round (1 / ((min (min (k + min rank U32_MAX) U32_MAX + 1) U32_MAX : Nat) : ℚ)))

/-- Add to the score of an id, from zero. -/
def credit (id : FactId) (weight : F64) : List (FactId × F64) → List (FactId × F64)
  | [] => [(id,(F64.ofRat 0).add weight)]
  | (id',score) :: rest => if id' = id then (id',score.add weight) :: rest else (id',score) :: credit id weight rest

/-- Fuse two rankings by reciprocal ranks. -/
def rrf_merge (fts vec : List (FactId × F64)) (k : Nat) : List (FactId × F64) :=
  let scores := fts.zipIdx.foldl (fun scores entry => credit entry.1.1 (rrf_weight k entry.2) scores) []
  let scores := vec.zipIdx.foldl (fun scores entry => credit entry.1.1 (rrf_weight k entry.2) scores) scores
  by_score libraries (libraries.scores.order scores)

/-- Valid at the cutoff. -/
def passes_temporal_cutoff (f : Fact) (cutoff : DateTime) : Bool :=
  f.t_valid.all (fun t_valid => !decide (t_valid > cutoff)) && f.t_invalid.all (fun t_invalid => !decide (t_invalid ≤ cutoff))

/-- The interval of validity overlaps the period. -/
def fact_overlaps_period (f : Fact) (start stop : DateTime) : Bool :=
  f.t_valid.all (fun tv => decide (tv < stop)) && f.t_invalid.all (fun ti => decide (ti > start))

def match_type (fts_ids vec_ids : List FactId) (id : FactId) : MatchType :=
  if fts_ids.contains id && vec_ids.contains id then .Both else if fts_ids.contains id then .Fts else .Vector

/-- Walk the ranking until the limit, taking each loaded fact once. -/
def collect (cutoff : DateTime) (effective_limit : Nat) (fts_ids vec_ids : List FactId) :
    List (FactId × F64) → List Fact → List SearchResult → List SearchResult
  | [],_,results => results
  | (id,score) :: ranked,facts_by_id,results =>
    if effective_limit ≤ results.length then results else
    match facts_by_id.find? (fun f => f.id == id) with
    | none => collect cutoff effective_limit fts_ids vec_ids ranked facts_by_id results
    | some fact =>
      let facts_by_id := facts_by_id.filter (fun f => f.id ≠ id)
      if passes_temporal_cutoff fact cutoff then
        collect cutoff effective_limit fts_ids vec_ids ranked facts_by_id (results ++ [⟨fact,score,match_type fts_ids vec_ids id⟩])
      else collect cutoff effective_limit fts_ids vec_ids ranked facts_by_id results

def effective_target (query : SearchQuery) : Nat := max (query.rerank_depth.getD query.limit) query.limit

def assemble_results (query : SearchQuery) (now : DateTime) (ranked : List (FactId × F64)) (fts_ids vec_ids : List FactId)
    (fts_candidate_count vec_candidate_count : Nat) (facts_by_id : List Fact) : List SearchResult × QueryDiagnostics :=
  let cutoff := query.valid_at.getD now
  let results := collect cutoff (effective_target query) fts_ids vec_ids ranked facts_by_id []
  (results,{ candidates_before_filter := ranked.length, results_returned := results.length,
             fts_candidates := fts_candidate_count, vector_candidates := vec_candidate_count })

def get_facts (ids : List FactId) : Sql (List Fact) := do
  let rows ← query fun t => t.facts.rows.filter fun f => ids.contains f.id
  rows_to_facts self.embed_dim rows

/-- The lexical channel, idle in a vector search or without a text. -/
def fts_results (query : SearchQuery) (filter : FactFilter) (overfetch : Nat) : Sql (List (FactId × F64)) :=
  match query.mode,query.text with
  | .Fts,some text => lexical_search libraries text filter overfetch
  | .Hybrid,some text => lexical_search libraries text filter overfetch
  | _,_ => return []

/-- The vector channel, idle in a lexical search or without an embedding. -/
def vec_results (query : SearchQuery) (filter : FactFilter) (overfetch : Nat) : Sql (List (FactId × F64)) :=
  match query.mode,query.embedding with
  | .Vector,some embedding => vector_search self libraries embedding filter overfetch
  | .Hybrid,some embedding => vector_search self libraries embedding filter overfetch
  | _,_ => return []

/-- The ranking of a mode. -/
def ranked (mode : SearchMode) (fts vec : List (FactId × F64)) : List (FactId × F64) :=
  match mode with
  | .Fts => fts
  | .Vector => vec
  | .Hybrid => rrf_merge libraries fts vec RRF_K

def port_hybrid_search (query : SearchQuery) (scope_ids : Option (List Int)) (now : DateTime) :
    Sql (List SearchResult × QueryDiagnostics) := do
  let overfetch := tripled (effective_target query)
  let filter : FactFilter := ⟨query.fact_type,scope_ids⟩
  let fts ← fts_results libraries query filter overfetch
  let vec ← vec_results self libraries query filter overfetch
  let ranked := ranked libraries query.mode fts vec
  let facts_by_id ← get_facts self (ranked.map Prod.fst)
  return assemble_results query now ranked (fts.map Prod.fst) (vec.map Prod.fst) fts.length vec.length facts_by_id

end Search

namespace FactStore
variable (self : SqliteBackend)

/-- Active facts of some scopes, of all where none is given. -/
def inScopes (scope_ids : List Int) (f : Fact) : Bool := scope_ids.isEmpty || scope_ids.contains f.scope_id

/-- Active facts from the highest importance score down. -/
def list_by_importance_score (rows : Shuffle Fact) (scope_ids : List Int) (min_score : F64) (limit : Nat) (exclude : List FactId) :
    Sql (List Fact) := do
  let listed ← query fun t =>
    let kept := (rows.order t.facts.rows).filter fun f =>
      f.t_expired.isNone && min_score.le (.num f.importance_score) && !exclude.contains f.id && inScopes scope_ids f
    (descending Fact.importance_score kept).take (limit_i64 limit)
  rows_to_facts self.embed_dim listed

/-- The overlap with a period as SQL compares it. -/
def overlapsByText (start stop : DateTime) (f : Fact) : Bool :=
  f.t_valid.all (fun tv => tv.textLt stop) && f.t_invalid.all (fun ti => start.textLt ti)

/-- Active facts that overlap a period, from the highest importance score down and
    by id. -/
def list_active_in_period (start stop : DateTime) (scope_ids : List Int) (fact_type : Option FactType) : Sql (List Fact) := do
  let listed ← query fun t =>
    descending (fun f => toLex (f.importance_score,OrderDual.toDual f.id)) (t.facts.rows.filter fun f =>
      f.t_expired.isNone && overlapsByText start stop f && inScopes scope_ids f && fact_type.all (fun ft => f.fact_type == ft))
  rows_to_facts self.embed_dim listed

end FactStore

namespace Query
variable (self : SqliteBackend) (libraries : SearchLibraries)
open Search

/-- None for a missing scope; no ids without a scope in the query. -/
def resolve_query_scope_ids (tree : ScopeTree) : Option ScopeQuery → Option (Option (List Int))
  | none => some none
  | some scope => (tree.resolve_query scope).map some

def validate_memory_query (query : MemoryQuery) : Except MemoryError Unit :=
  if query.period_start.isSome ≠ query.period_end.isSome then
    .error (.Conflict (.QueryValidation "period_start and period_end must both be set or both unset"))
  else if query.valid_at.isSome && query.has_period then
    .error (.Conflict (.QueryValidation "valid_at and period are mutually exclusive"))
  else match query.search_mode with
    | some .Fts => if query.text.isNone then .error (.Conflict (.QueryValidation "SearchMode::Fts requires text to be set")) else .ok ()
    | some .Vector => if query.embedding.isNone then
        .error (.Conflict (.QueryValidation "SearchMode::Vector requires embedding to be set")) else .ok ()
    | some .Hybrid => if query.text.isNone || query.embedding.isNone then
        .error (.Conflict (.QueryValidation "SearchMode::Hybrid requires both text and embedding")) else .ok ()
    | none => .ok ()

def infer_search_mode (query : MemoryQuery) : SearchMode :=
  match query.search_mode with
  | some mode => mode
  | none =>
    match query.text.isSome,query.embedding.isSome with
    | true,true => .Hybrid
    | true,false => .Fts
    | false,true => .Vector
    | false,false => .Fts

/-- Keep the results whose fact passes, where the filter is set. -/
def retainIf {α : Type} (set : Option α) (passes : α → Fact → Bool) (results : List SearchResult) : List SearchResult :=
  match set with
  | some value => results.filter fun r => passes value r.fact
  | none => results

/-- Both ends of the period. -/
def period (query : MemoryQuery) : Option (DateTime × DateTime) :=
  match query.period_start,query.period_end with
  | some start,some stop => some (start,stop)
  | _,_ => none

/-- The query as the channels take it. The cutoff of a period query is the latest
    instant there is. -/
def search_query (query : MemoryQuery) (effective_cutoff : Option DateTime) (limit : Nat) : SearchQuery where
  text := query.text
  embedding := query.embedding
  mode := infer_search_mode query
  limit := limit
  valid_at := if effective_cutoff.isNone && query.has_period then some DateTime.MAX_UTC else effective_cutoff
  fact_type := query.fact_type
  scope := query.scope

def post_filter (query : MemoryQuery) (results : List SearchResult) : List SearchResult :=
  let results := retainIf (period query) (fun bounds f => fact_overlaps_period f bounds.1 bounds.2) results
  let results := retainIf query.min_importance_score (fun min_score f => min_score.le (.num f.importance_score)) results
  if query.pinned_only then results.filter (fun r => r.fact.is_pinned) else results

/-- The number of expired matches, where the query asks for it. -/
def expired_probe (query : MemoryQuery) (scope_ids : Option (List Int)) : Sql (Option Nat) :=
  match query.include_expired_probe,query.text with
  | true,some text => some <$> lexical_count_expired libraries text query.fact_type scope_ids
  | _,_ => return none

def execute_search_path (query : MemoryQuery) (scope_ids : Option (List Int)) (effective_cutoff : Option DateTime) (limit : Nat)
    (now : DateTime) : Sql QueryResponse := do
  let found ← port_hybrid_search self libraries (search_query query effective_cutoff limit) scope_ids now
  let results := (post_filter query found.1).take limit
  let expired_matches ← expired_probe libraries query scope_ids
  return ⟨results,{ found.2 with results_returned := results.length, expired_matches := expired_matches }⟩

def fact_to_search_result (fact : Fact) : SearchResult := ⟨fact,.num fact.importance_score,.ImportanceRank⟩

/-- The rows the store path starts from. -/
def fetch_candidates (query : MemoryQuery) (scope_ids : Option (List Int)) (limit : Nat) : Sql (List Fact) :=
  match period query with
  | some (start,stop) => FactStore.list_active_in_period self start stop (scope_ids.getD []) query.fact_type
  | none => FactStore.list_by_importance_score self libraries.rows (scope_ids.getD [])
      (query.min_importance_score.getD (F64.ofRat 0)) (tripled limit) []

/-- The filters that SQL did not apply. -/
def store_filter (query : MemoryQuery) (effective_cutoff : Option DateTime) (f : Fact) : Bool :=
  effective_cutoff.all (fun cutoff => passes_temporal_cutoff f cutoff) &&
    (query.has_period || query.fact_type.all (fun ft => f.fact_type == ft)) &&
      (!query.has_period || query.min_importance_score.all (fun min_score => min_score.le (.num f.importance_score))) &&
        (!query.pinned_only || f.is_pinned)

def execute_store_path (query : MemoryQuery) (scope_ids : Option (List Int)) (effective_cutoff : Option DateTime) (limit : Nat) :
    Sql QueryResponse := do
  let facts ← fetch_candidates self libraries query scope_ids limit
  let kept := (descending Fact.importance_score (facts.filter (store_filter query effective_cutoff))).take limit
  let results := kept.map fact_to_search_result
  return ⟨results,{ candidates_before_filter := facts.length, results_returned := results.length }⟩

/-- Now, unless the query names an instant or a period. -/
def effective_cutoff (query : MemoryQuery) (now : DateTime) : Option DateTime :=
  if query.valid_at.isSome then query.valid_at else if query.has_period then none else some now

/-- The search channels for a query with a search term, the rows for any other. -/
def execute_path (query : MemoryQuery) (scope_ids : Option (List Int)) (now : DateTime) : Sql QueryResponse :=
  if query.has_search
  then execute_search_path self libraries query scope_ids (effective_cutoff query now) query.effective_limit now
  else execute_store_path self libraries query scope_ids (effective_cutoff query now) query.effective_limit

def execute_query (ctx : MemoryCtx) (query : MemoryQuery) (now : DateTime) : Op QueryExecution := do
  ctx.ensure_open
  validate_memory_query query
  let engine ← get
  match resolve_query_scope_ids engine.scope_tree query.scope with
  | none => return .ScopeMissing
  | some scope_ids =>
    let response ← port (execute_path ctx.backend libraries query scope_ids now)
    return .Executed response

end Query
end MemoryEngine
