import MemoryEngine.Cycle

/-! Ingest. Facts come in one at a time or in batches; each names a scope path,
which is created in the store on the way and cached in the scope tree after the
commit. Embedding and classification are the consumer's. -/

namespace MemoryEngine
open Time KeyedTable Transaction

structure AddFactOptions where
  base_importance : Option F64 := none
  metadata : Option Json := none
  t_valid : Option DateTime := none
  t_invalid : Option DateTime := none
  pinned : Option Bool := none
  t_created : Option DateTime := none
  last_accessed : Option DateTime := none

structure AddFactRequest where
  content : String
  fact_type : FactType
  source_event_id : Option Int
  scope : Option String
  opts : Option AddFactOptions

structure ClassifierInput where
  content : String
  fact_type : FactType
  base_importance : F64
  metadata : Json

/-- The consumer's model. -/
structure EmbeddingProvider where
  embed : String → Except MemoryError Embedding
  embed_batch : List String → Except MemoryError (List Embedding)
  fingerprint : EmbeddingFingerprint

/-- The consumer's choice of the facts to pin. -/
abbrev PersistenceClassifier := ClassifierInput → Bool

structure PromoteRequest where
  content : String
  fact_type : FactType
  embedding : Embedding
  importance : F64
  metadata : Json
  scope : Option String
  source_fact_ids : List FactId
  provenance : PromotionProvenance

structure PromotionResult where
  fact_id : FactId
  lineage_id : Int

namespace AddFactRequest

def options (req : AddFactRequest) : AddFactOptions := req.opts.getD {}

def importance (req : AddFactRequest) : F64 := req.options.base_importance.getD (F64.ofRat (1 / 2))

def classifierInput (req : AddFactRequest) : ClassifierInput :=
  ⟨req.content,req.fact_type,req.importance,req.options.metadata.getD (.obj [])⟩

/-- The fact to insert; the store computes the content hash. -/
def newFact (req : AddFactRequest) (embedding : Embedding) (scope_id : Int) (is_pinned : Bool) (now : DateTime) : NewFact where
  content := req.content
  content_hash := ""
  embedding := embedding
  fact_type := req.fact_type
  t_created := req.options.t_created.getD now
  t_expired := none
  t_valid := req.options.t_valid
  t_invalid := req.options.t_invalid
  source_event_id := req.source_event_id
  base_importance := req.importance
  access_count := 0
  last_accessed := req.options.last_accessed.getD now
  metadata := req.options.metadata.getD (.obj [])
  scope_id := scope_id
  is_pinned := is_pinned

end AddFactRequest

namespace Ingest
variable (self : SqliteBackend)

def validate_importance : Option F64 → Except MemoryError Unit
  | none => .ok ()
  | some v => if !v.is_finite || !((F64.ofRat 0).le v && v.le (F64.ofRat 1)) then
      .error (.Conflict (.PolicyParameter s!"importance must be in [0, 1], got {self.display v}")) else .ok ()

def validate_add_fact_request (req : AddFactRequest) : Except MemoryError Unit := do
  validate_importance self (req.opts.bind AddFactOptions.base_importance)
  check_str_size req.content "fact content"
  match req.opts.bind AddFactOptions.metadata with
  | some metadata => check_json_size self.float_text metadata "fact metadata"
  | none => .ok ()

/-- The request passes validation. -/
def valid (req : AddFactRequest) : Bool :=
  match validate_add_fact_request self req with
  | .ok _ => true
  | .error _ => false

/-- The importance of a valid request is in range; the default is. -/
theorem importance_of_valid {req : AddFactRequest} (passes : validate_add_fact_request self req = .ok ()) :
    req.importance.is_finite = true ∧ (F64.ofRat 0).le req.importance = true ∧ req.importance.le (F64.ofRat 1) = true := by
  obtain ⟨_,checked,_⟩ := made_bind.mp passes
  have usual : (F64.ofRat (1 / 2)).is_finite = true ∧ (F64.ofRat 0).le (F64.ofRat (1 / 2)) = true ∧
      (F64.ofRat (1 / 2)).le (F64.ofRat 1) = true := by decide +kernel
  have given : req.importance = (req.opts.bind AddFactOptions.base_importance).getD (F64.ofRat (1 / 2)) := by
    cases opts : req.opts with
    | none => simp [AddFactRequest.importance,AddFactRequest.options,opts]
    | some o => simp [AddFactRequest.importance,AddFactRequest.options,opts]
  rw [given]
  cases stated : req.opts.bind AddFactOptions.base_importance with
  | none => exact usual
  | some v =>
    rw [stated,validate_importance] at checked
    split at checked
    · cases checked
    · rename_i within
      simp only [Bool.or_eq_true,Bool.not_eq_true',not_or,Bool.not_eq_false,Bool.and_eq_true] at within
      exact within

/-- The first invalid entry rejects the whole batch. -/
def validateAll (entries : List AddFactRequest) : Except MemoryError Unit :=
  entries.foldlM (fun _ entry => validate_add_fact_request self entry) ()

/-- Record or compare the identity, then insert. -/
def insert_fact_atomic (fact : NewFact) (fingerprint : EmbeddingFingerprint) (expected_dim : Nat) : Sql FactId := do
  let _ ← EmbeddingMeta.record_if_absent fingerprint expected_dim
  FactStore.insert self fact

/-- The ids of the paths met so far, and the scope of each entry so far. -/
structure ResolvedScopes where
  scope_cache : List (String × Int)
  per_entry : List Int

/-- Resolve the scope of one entry; a path met before is not looked up again. -/
def resolveEntry (acc : ResolvedScopes) : Option String → Sql ResolvedScopes
  | none => return { acc with per_entry := acc.per_entry ++ [1] }
  | some path =>
    match acc.scope_cache.lookup path with
    | some cached => return { acc with per_entry := acc.per_entry ++ [cached] }
    | none => do
      let id ← ScopeStore.ensure_path path
      return ⟨acc.scope_cache ++ [(path,id)],acc.per_entry ++ [id]⟩

def resolveEntries (scope_paths : List (Option String)) : Sql ResolvedScopes := scope_paths.foldlM resolveEntry ⟨[],[]⟩

def insertEntries (entries : List (NewFact × Int)) : Sql (List FactId) :=
  entries.foldlM (fun ids entry => do
    let id ← FactStore.insert self { entry.1 with scope_id := entry.2 }
    return ids ++ [id]) []

/-- One transaction for the identity, the scopes and the facts. The scope ids come
    back in no order that matters. -/
def insert_facts_batch_atomic (facts : List NewFact) (scope_paths : List (Option String)) (fingerprint : EmbeddingFingerprint)
    (expected_dim : Nat) : Sql (List FactId × List Int) := do
  require (facts.length = scope_paths.length) (.Internal
    s!"batch insert: facts ({facts.length}) and scope_paths ({scope_paths.length}) length mismatch")
  let _ ← EmbeddingMeta.record_if_absent fingerprint expected_dim
  let resolved ← resolveEntries scope_paths
  let ids ← insertEntries self (facts.zip resolved.per_entry)
  return (ids,resolved.scope_cache.map Prod.snd)

/-- The scope of a promoted fact, and what to cache afterwards. -/
def promotedScope : Option String → Sql (Int × List Int)
  | none => return (1,[])
  | some path => do
    let id ← ScopeStore.ensure_path path
    return (id,[id])

def promote_atomic (fact : NewFact) (scope_path : Option String) (source_fact_ids : List FactId)
    (provenance : PromotionProvenance) : Sql (PromotionResult × List Int) := do
  EmbeddingMeta.require_present
  let scope ← promotedScope scope_path
  let fact_id ← FactStore.insert self { fact with scope_id := scope.1 }
  let lineage_id ← LineageStore.insert ⟨fact_id,source_fact_ids⟩ provenance
  return (⟨fact_id,lineage_id⟩,scope.2)

/-- A slot that is settled without the classifier. -/
def pinSlot (classified : Bool) (entry : AddFactRequest) : Option Bool :=
  match entry.options.pinned with
  | some p => some p
  | none => if classified then none else some false

/-- Each open slot draws the next result. -/
def stitch : List (Option Bool) → List Bool → List Bool
  | [],_ => []
  | some p :: slots,results => p :: stitch slots results
  | none :: slots,results => results.headD false :: stitch slots results.tail

def compute_batch_pins (entries : List AddFactRequest) (classifier : Option PersistenceClassifier) : List Bool :=
  let pending := (entries.filter (fun entry => (pinSlot classifier.isSome entry).isNone)).map AddFactRequest.classifierInput
  stitch (entries.map (pinSlot classifier.isSome)) (match classifier with
    | some c => pending.map c
    | none => [])

theorem stitch_length (slots : List (Option Bool)) (results : List Bool) : (stitch slots results).length = slots.length := by
  induction slots generalizing results with
  | nil => rfl
  | cons slot rest ih =>
    cases slot with
    | some p => simp [stitch,ih]
    | none => simp [stitch,ih]

/-- A batch with a vector for each entry keeps every entry. -/
theorem map_triples {α : Type} {entries : List AddFactRequest} {embeddings : List Embedding}
    (counted : embeddings.length = entries.length) (classifier : Option PersistenceClassifier) (part : AddFactRequest → α) :
    ((entries.zip embeddings).zip (compute_batch_pins entries classifier)).map (fun x => part x.1.1) = entries.map part := by
  have pins : (compute_batch_pins entries classifier).length = entries.length := by
    unfold compute_batch_pins
    rw [stitch_length,List.length_map]
  have inner : (entries.zip embeddings).map Prod.fst = entries := List.map_fst_zip (le_of_eq counted.symm)
  have outer : ((entries.zip embeddings).zip (compute_batch_pins entries classifier)).map Prod.fst = entries.zip embeddings := by
    refine List.map_fst_zip ?_
    rw [List.length_zip,counted,Nat.min_self,pins]
  have parts : ((entries.zip embeddings).zip (compute_batch_pins entries classifier)).map (fun x => part x.1.1) =
      ((((entries.zip embeddings).zip (compute_batch_pins entries classifier)).map Prod.fst).map Prod.fst).map part := by
    rw [List.map_map,List.map_map]
    rfl
  rw [parts,outer,inner]

/-- The facts of a batch. The scope id is a placeholder until the transaction
    resolves the paths. -/
def batchFacts (entries : List AddFactRequest) (embeddings : List Embedding) (pins : List Bool) (now : DateTime) : List NewFact :=
  ((entries.zip embeddings).zip pins).map (fun x => x.1.1.newFact x.1.2 1 x.2 now)

def batchPaths (entries : List AddFactRequest) (embeddings : List Embedding) (pins : List Bool) : List (Option String) :=
  ((entries.zip embeddings).zip pins).map (fun x => x.1.1.scope)

end Ingest

open Ingest

/-- Walk the parent links up to the root or to a node seen before. Every round
    reads another row of the table, so the fuel outlasts the walk. -/
def scopeChain : Nat → List Int → Option Int → Op (List ScopeNode)
  | 0,_,_ => return []
  | _ + 1,_,none => return []
  | fuel + 1,seen,some node_id =>
    if node_id = ScopeTree.ROOT_ID ∨ node_id ∈ seen then return [] else do
      let node ← port (ScopeStore.get node_id)
      let rest ← scopeChain fuel (node_id :: seen) node.parent_id
      return node :: rest

/-- Insert nodes under the write lock of the scope tree. -/
def cacheNodes (nodes : List ScopeNode) : Op Unit :=
  modify fun engine => { engine with scope_tree := nodes.foldl ScopeTree.insert engine.scope_tree }

def cache_scope_chain (leaf_id : Int) : Op Unit := do
  let engine ← get
  let nodes ← scopeChain (engine.storage.scopes.rows.length + 1) [] (some leaf_id)
  cacheNodes nodes

def ensure_scope_path (ctx : MemoryCtx) (path : String) : Op Int := do
  ctx.ensure_writable
  let id ← port (ScopeStore.ensure_path path)
  cache_scope_chain id
  return id

/-- The scope of a single fact. -/
def factScope : Option String → Op Int
  | none => return 1
  | some path => do
    let id ← port (ScopeStore.ensure_path path)
    cache_scope_chain id
    return id

def shouldPin (req : AddFactRequest) (classifier : Option PersistenceClassifier) : Bool :=
  match req.options.pinned,classifier with
  | some p,_ => p
  | none,none => false
  | none,some c => c req.classifierInput

def insert_fact_with_embedding (ctx : MemoryCtx) (req : AddFactRequest) (embedding : Embedding)
    (classifier : Option PersistenceClassifier) (fingerprint : EmbeddingFingerprint) (now : DateTime) : Op FactId := do
  let scope_id ← factScope req.scope
  port (insert_fact_atomic ctx.backend (req.newFact embedding scope_id (shouldPin req classifier) now) fingerprint
    ctx.backend.embed_dim)

def add_fact (ctx : MemoryCtx) (req : AddFactRequest) (embedder : EmbeddingProvider) (classifier : Option PersistenceClassifier)
    (now : DateTime) : Op FactId := do
  ctx.ensure_open
  ctx.ensure_writable
  validate_add_fact_request ctx.backend req
  let embedding ← embedder.embed req.content
  insert_fact_with_embedding ctx req embedding classifier embedder.fingerprint now

def add_fact_precomputed (ctx : MemoryCtx) (req : AddFactRequest) (embedding : Embedding) (declared : EmbeddingFingerprint)
    (classifier : Option PersistenceClassifier) (now : DateTime) : Op FactId := do
  ctx.ensure_open
  ctx.ensure_writable
  validate_add_fact_request ctx.backend req
  insert_fact_with_embedding ctx req embedding classifier declared now

/-- Read the node of one scope; an error leaves it out. -/
def readNode (sid : Int) : Op (List ScopeNode) := do
  match ← attempt (port (ScopeStore.get sid)) with
  | .ok node => return [node]
  | .error _ => return []

/-- Cache the named nodes themselves, without their ancestors. -/
def cacheLeaves (scope_ids : List Int) : Op Unit := do
  let nodes ← scope_ids.foldlM (fun nodes sid => do return nodes ++ (← readNode sid)) []
  cacheNodes nodes

def insert_validated_batch (ctx : MemoryCtx) (entries : List AddFactRequest) (embedder : EmbeddingProvider)
    (classifier : Option PersistenceClassifier) (now : DateTime) : Op (List FactId) := do
  let embeddings ← embedder.embed_batch (entries.map AddFactRequest.content)
  if embeddings.length ≠ entries.length then
    throw (.Internal s!"embed_batch returned {embeddings.length} embeddings for {entries.length} entries")
  else do
    let pins := compute_batch_pins entries classifier
    let (ids,scope_ids) ← port (insert_facts_batch_atomic ctx.backend (batchFacts entries embeddings pins now)
      (batchPaths entries embeddings pins) embedder.fingerprint ctx.backend.embed_dim)
    if ids.length ≠ (batchFacts entries embeddings pins now).length then
      throw (.Internal s!"batch insert returned {ids.length} ids for {(batchFacts entries embeddings pins now).length} facts")
    else do
      cacheLeaves scope_ids
      return ids

/-- All or nothing. -/
def add_facts_batch (ctx : MemoryCtx) (entries : List AddFactRequest) (embedder : EmbeddingProvider)
    (classifier : Option PersistenceClassifier) (now : DateTime) : Op (List FactId) := do
  ctx.ensure_open
  ctx.ensure_writable
  if entries = [] then return [] else do
    validateAll ctx.backend entries
    insert_validated_batch ctx entries embedder classifier now

/-- Hand the ids to the valid entries in order. -/
def rethread (self : SqliteBackend) : List AddFactRequest → List FactId → List (Except MemoryError FactId)
  | [],_ => []
  | entry :: rest,ids =>
    match validate_add_fact_request self entry with
    | .error e => .error e :: rethread self rest ids
    | .ok _ =>
      match ids with
      | id :: more => .ok id :: rethread self rest more
      | [] => .error (.Internal "id count invariant violated (fewer ids than valid entries)") :: rethread self rest []

def insertKept (ctx : MemoryCtx) (kept : List AddFactRequest) (embedder : EmbeddingProvider)
    (classifier : Option PersistenceClassifier) (now : DateTime) : Op (List FactId) :=
  if kept = [] then return [] else insert_validated_batch ctx kept embedder classifier now

/-- Only the valid entries go in; the others keep their errors. -/
def add_facts_batch_partial (ctx : MemoryCtx) (entries : List AddFactRequest) (embedder : EmbeddingProvider)
    (classifier : Option PersistenceClassifier) (now : DateTime) : Op (List (Except MemoryError FactId)) := do
  ctx.ensure_open
  ctx.ensure_writable
  if entries = [] then return [] else do
    let ids ← insertKept ctx (entries.filter (valid ctx.backend)) embedder classifier now
    return rethread ctx.backend entries ids

/-- The pinned fact of a promotion, with its provenance in the metadata. -/
def PromoteRequest.newFact (req : PromoteRequest) (now : DateTime) : NewFact where
  content := req.content
  content_hash := ""
  embedding := req.embedding
  fact_type := req.fact_type
  t_created := now
  t_expired := none
  t_valid := none
  t_invalid := none
  source_event_id := none
  base_importance := req.importance
  access_count := 0
  last_accessed := now
  metadata := .obj (Json.insertField "promotion_provenance" req.provenance.to_value req.metadata.fields)
  scope_id := 1
  is_pinned := true

/-- The write gate sits below the seam here. -/
def promote_with_lineage (ctx : MemoryCtx) (req : PromoteRequest) (now : DateTime) : Op PromotionResult := do
  if req.embedding.length ≠ ctx.backend.embed_dim then
    throw (.EmbeddingDimension ctx.backend.embed_dim req.embedding.length)
  else do
    ctx.ensure_writable
    let (result,scope_ids) ← port (promote_atomic ctx.backend (req.newFact now) req.scope req.source_fact_ids req.provenance)
    scope_ids.foldlM (fun _ sid => cache_scope_chain sid) ()
    return result

end MemoryEngine
