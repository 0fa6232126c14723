import MemoryEngine.Time
import MemoryEngine.KeyedTable
import Mathlib.Order.WithBot
import Mathlib.Algebra.Order.Ring.Rat

/-! The data the engine stores and passes around. A `REAL` column holds any
double but NaN, which SQLite turns into NULL; doubles are exact extended
rationals here. An embedding is the list of its elements' bit patterns. -/

namespace MemoryEngine
open Time KeyedTable

/-- A double that is not NaN. -/
abbrev SqlReal := WithBot (WithTop ℚ)

inductive F64 where
  | nan
  | num (value : SqlReal)
deriving DecidableEq

namespace F64
def ofRat (q : ℚ) : F64 := .num ((q : WithTop ℚ) : SqlReal)

def is_finite : F64 → Bool
  | .nan => false
  | .num value => value ≠ ⊥ ∧ value ≠ ⊤

/-- `<=` of doubles, false on NaN. -/
def le : F64 → F64 → Bool
  | .num a,.num b => decide (a ≤ b)
  | _,_ => false

/-- `<` of doubles, false on NaN. -/
def lt : F64 → F64 → Bool
  | .num a,.num b => decide (a < b)
  | _,_ => false
end F64

/-- The bit pattern of a single-precision float. -/
abbrev F32 := UInt32
abbrev Embedding := List F32
abbrev FactId := Int

/-- A JSON document. Integers and floats are told apart as serde does, and an
    object keeps its keys in ascending order. -/
inductive Json where
  | null
  | bool (b : Bool)
  | int (i : Int)
  | float (x : SqlReal)
  | str (s : String)
  | arr (items : List Json)
  | obj (fields : List (String × Json))

namespace Json

/-- Insert into the ordered map of an object, replacing an equal key. -/
def insertField (k : String) (v : Json) : List (String × Json) → List (String × Json)
  | [] => [(k,v)]
  | (k',v') :: rest => if k = k' then (k,v) :: rest else
      if k < k' then (k,v) :: (k',v') :: rest else (k',v') :: insertField k v rest

def fields : Json → List (String × Json)
  | .obj fs => fs
  | _ => []

/-- Overwrite the keys of the first map by those of the second. -/
def mergeFields (base patch : List (String × Json)) : List (String × Json) :=
  patch.foldl (fun acc kv => insertField kv.1 kv.2 acc) base

/-- An object literal. -/
def object (fields : List (String × Json)) : Json := .obj (mergeFields [] fields)

/-- A double that is not finite is written as null. -/
def ofF64 : F64 → Json
  | .nan => .null
  | .num x => if x = ⊥ ∨ x = ⊤ then .null else .float x

mutual
/-- How deep arrays and objects are nested. -/
def depth : Json → Nat
  | .null => 0
  | .bool _ => 0
  | .int _ => 0
  | .float _ => 0
  | .str _ => 0
  | .arr items => itemDepth items + 1
  | .obj fields => fieldDepth fields + 1
def itemDepth : List Json → Nat
  | [] => 0
  | item :: rest => max (depth item) (itemDepth rest)
def fieldDepth : List (String × Json) → Nat
  | [] => 0
  | (_,v) :: rest => max (depth v) (fieldDepth rest)
end

/-- The nesting at which the reader gives up. -/
def RECURSION_LIMIT : Nat := 128

/-- The written document reads back. -/
def Parses (j : Json) : Prop := j.depth < RECURSION_LIMIT

instance (j : Json) : Decidable j.Parses := inferInstanceAs (Decidable (_ < _))

theorem fieldDepth_insertField (k : String) (v : Json) (fs : List (String × Json)) :
    fieldDepth (insertField k v fs) ≤ max (depth v) (fieldDepth fs) := by
  induction fs with
  | nil => simp [insertField,fieldDepth]
  | cons head rest ih =>
    obtain ⟨k',v'⟩ := head
    unfold insertField
    by_cases same : k = k'
    · rw [if_pos same]
      simp only [fieldDepth]
      omega
    · rw [if_neg same]
      by_cases before : k < k'
      · rw [if_pos before]
        simp only [fieldDepth]
        omega
      · rw [if_neg before]
        simp only [fieldDepth]
        omega

theorem fieldDepth_mergeFields (base patch : List (String × Json)) :
    fieldDepth (mergeFields base patch) ≤ max (fieldDepth base) (fieldDepth patch) := by
  unfold mergeFields
  induction patch generalizing base with
  | nil => simp [fieldDepth]
  | cons head rest ih =>
    have grown := fieldDepth_insertField head.1 head.2 base
    have later := ih (insertField head.1 head.2 base)
    rw [List.foldl_cons]
    simp only [fieldDepth]
    omega

theorem fieldDepth_fields (j : Json) : fieldDepth j.fields ≤ j.depth := by
  cases j <;> simp [fields,fieldDepth,depth]

theorem depth_object (fields : List (String × Json)) : (object fields).depth ≤ fieldDepth fields + 1 := by
  have merged := fieldDepth_mergeFields [] fields
  simp only [fieldDepth] at merged
  rw [object,depth]
  omega

/-- The document is an object with this key. -/
def hasKey (key : String) (j : Json) : Bool := j.fields.any (fun entry => entry.1 == key)

theorem any_insertField (key k : String) (v : Json) (fs : List (String × Json)) :
    (insertField k v fs).any (fun entry => entry.1 == key) = (k == key || fs.any (fun entry => entry.1 == key)) := by
  induction fs with
  | nil => simp [insertField]
  | cons head rest ih =>
    obtain ⟨k',v'⟩ := head
    unfold insertField
    by_cases same : k = k'
    · subst same
      simp
    · by_cases before : k < k'
      · simp [same,before]
      · simp only [same,before,if_false,List.any_cons,ih]
        rw [Bool.or_left_comm]

theorem any_mergeFields (key : String) (base patch : List (String × Json)) :
    (mergeFields base patch).any (fun entry => entry.1 == key) =
      (base.any (fun entry => entry.1 == key) || patch.any (fun entry => entry.1 == key)) := by
  unfold mergeFields
  induction patch generalizing base with
  | nil => simp
  | cons head rest ih =>
    rw [List.foldl_cons,ih,any_insertField,List.any_cons,← Bool.or_assoc]
    rw [Bool.or_comm (head.1 == key)]

end Json

inductive FactType where
  | Episodic
  | Semantic
  | Procedural
deriving DecidableEq

def FactType.name : FactType → String
  | .Episodic => "Episodic"
  | .Semantic => "Semantic"
  | .Procedural => "Procedural"

structure Fact where
  id : FactId
  content : String
  content_hash : String
  embedding : Embedding
  fact_type : FactType
  t_created : DateTime
  t_expired : Option DateTime
  t_valid : Option DateTime
  t_invalid : Option DateTime
  source_event_id : Option Int
  base_importance : SqlReal
  access_count : Int
  last_accessed : DateTime
  metadata : Json
  scope_id : Int
  is_pinned : Bool
  importance_score : SqlReal
  surfaced_at : Option DateTime

instance : Row Fact := ⟨Fact.id⟩

structure NewFact where
  content : String
  content_hash : String
  embedding : Embedding
  fact_type : FactType
  t_created : DateTime
  t_expired : Option DateTime
  t_valid : Option DateTime
  t_invalid : Option DateTime
  source_event_id : Option Int
  base_importance : F64
  access_count : Int
  last_accessed : DateTime
  metadata : Json
  scope_id : Int
  is_pinned : Bool

/-- The projection the forgetting pass reads. -/
structure FactScoringRow where
  id : FactId
  fact_type : FactType
  last_accessed : DateTime
  access_count : Int
  base_importance : SqlReal
  is_pinned : Bool

/-- Relation labels, with one spelling for each of the four known ones. -/
inductive RelationType where
  | CoSession
  | Supplements
  | Contradicts
  | Supersedes
  | Custom (label : String)
deriving DecidableEq

def RelationType.as_str : RelationType → String
  | .CoSession => "co_session"
  | .Supplements => "supplements"
  | .Contradicts => "contradicts"
  | .Supersedes => "supersedes"
  | .Custom label => label

def RelationType.from (s : String) : RelationType :=
  if s = "co_session" then .CoSession else
  if s = "supplements" then .Supplements else
  if s = "contradicts" then .Contradicts else
  if s = "supersedes" then .Supersedes else .Custom s

structure Edge where
  id : Int
  source_fact_id : FactId
  target_fact_id : FactId
  relation_type : RelationType
  weight : SqlReal
  t_created : DateTime
  t_expired : Option DateTime
  scope_id : Int
deriving DecidableEq

instance : Row Edge := ⟨Edge.id⟩

structure NewEdge where
  source_fact_id : FactId
  target_fact_id : FactId
  relation_type : RelationType
  weight : F64
  t_created : DateTime
  t_expired : Option DateTime
  scope_id : Int

inductive ConsolidationLevel where
  | Local
  | Cluster
  | Global
deriving DecidableEq

structure Summary where
  id : Int
  content : String
  embedding : Embedding
  level : ConsolidationLevel
  source_fact_ids : List FactId
  created_at : DateTime
  scope_id : Int

instance : Row Summary := ⟨Summary.id⟩

structure NewSummary where
  content : String
  embedding : Embedding
  level : ConsolidationLevel
  source_fact_ids : List FactId
  created_at : DateTime
  scope_id : Int

structure ScopeNode where
  id : Int
  parent_id : Option Int
  label : String
  depth : Int
deriving DecidableEq

instance : Row ScopeNode := ⟨ScopeNode.id⟩

inductive EventType where
  | Interaction
  | ToolCall
  | MemoryOp
  | SystemEvent
  | OutcomeSignal
deriving DecidableEq

inductive Outcome where
  | Positive
  | Negative
  | Neutral
deriving DecidableEq

/-- The name serde gives the variant. -/
def Outcome.name : Outcome → String
  | .Positive => "Positive"
  | .Negative => "Negative"
  | .Neutral => "Neutral"

structure Event where
  id : Int
  timestamp : DateTime
  event_type : EventType
  payload : Json
  source : String
  session_id : Option String
  scope_id : Int
  origin_node_id : String
  sequence_id : Int
  created_at : Option DateTime
  event_revision : Nat

instance : Row Event := ⟨Event.id⟩

structure NewEvent where
  timestamp : DateTime
  event_type : EventType
  payload : Json
  source : String
  session_id : Option String
  scope_id : Int
  origin_node_id : String
  sequence_id : Int
  created_at : Option DateTime

structure PromotionProvenance where
  source_count : Nat
  session_count : Nat
  date_range_start : DateTime
  date_range_end : DateTime
  confidence : F64
  method_version : String
  representative_ids : List Int

structure NewLineageRecord where
  wisdom_fact_id : FactId
  source_fact_ids : List FactId

/-- A row of the `lineage` table. -/
structure LineageRow where
  lineage_id : Int
  wisdom_fact_id : FactId
  source_fact_ids : List FactId
  provenance : PromotionProvenance

instance : Row LineageRow := ⟨LineageRow.lineage_id⟩

structure EmbeddingFingerprint where
  model : String
  provider : String
  dim : Nat
  matryoshka_base_dim : Option Nat
  element_type : String
deriving DecidableEq

inductive SpaceStatus where
  | Active
  | Populating
  | Deprecated
deriving DecidableEq

structure EmbeddingSpace where
  name : String
  fingerprint : EmbeddingFingerprint
  status : SpaceStatus
deriving DecidableEq

def EmbeddingSpace.DEFAULT_NAME : String := "default"

/-- A row of the `fact_vectors` table. -/
structure FactVector where
  fact_id : FactId
  space_id : String
  embedding : Embedding
deriving DecidableEq

inductive ActivityStatus where
  | Recorded
  | Deduplicated
  | Ignored
  | Promoted
deriving DecidableEq

inductive OutcomeClass where
  | Success
  | Error
  | TestFailure
  | Other (label : String)
deriving DecidableEq

structure Activity where
  id : Int
  session_id : String
  tool_name : String
  args_hash : String
  args : Json
  result_summary : Option String
  outcome_class : OutcomeClass
  status : ActivityStatus
  occurrence_count : Int
  first_seen : DateTime
  last_seen : DateTime
  scope_id : Int
  promoted_fact_id : Option FactId

instance : Row Activity := ⟨Activity.id⟩

structure SessionCheckpoint where
  session_id : String
  scope_path : Option String
  summary : Option String
  last_activity_id : Option Int
  checkpoint_at : DateTime
  metadata : Json

structure ArchiveManifestEntry where
  id : Int
  pak_path : String
  created_at : DateTime
  fact_count : Int
  edge_count : Int
  fact_id_min : Int
  fact_id_max : Int
  t_created_min : DateTime
  t_created_max : DateTime
  size_bytes : Int
  blake3_hash : String

instance : Row ArchiveManifestEntry := ⟨ArchiveManifestEntry.id⟩

/-- The verdict of a conflict arbiter. -/
inductive CrudDecision where
  | Add
  | Update
  | Delete
  | Noop
deriving DecidableEq

inductive ConflictError where
  | QueryValidation (message : String)
  | PolicyParameter (message : String)
  | ScopeLabel (message : String)
  | Arbitration (message : String)
  | PayloadTooLarge (kind : String) (size limit : Nat)
  | TargetNotEmpty

inductive CycleError where
  | UnknownFact (id : FactId)
  | AdjustmentOutOfRange (fact_id : FactId) (adjustment : Int)
  | SupersedeMissing (id : FactId)
  | AlreadyExpired (id : FactId)
  | SynthesizeNoSources
  | MalformedReport (facts_selected : Nat)

inductive RerankerError where
  | Provider (message : String)
  | OutputTooLong (output_len input_len : Nat)
  | OutOfBoundsIndex (index num_candidates : Nat)
  | DuplicateIndex (index : Nat)
  | NonFiniteScore (score : F64) (index : Nat)

inductive MemoryError where
  | NotFound (what : String)
  | EmbeddingDimension (expected actual : Nat)
  | EmbeddingModelMismatch (expected actual : EmbeddingFingerprint)
  | EmbeddingReopenRequired (new_dim : Nat)
  | Conflict (error : ConflictError)
  | Storage (message : String)
  | Serialization (message : String)
  | Internal (message : String)
  | Archive (message : String)
  | Migration (message : String)
  | UnsupportedEpoch (db_epoch supported_epoch : Nat)
  | ReadOnly
  | Lineage (message : String)
  | Cycle (error : CycleError)
  | IndexInconsistent (fact_id : Int) (detail : String)
  | Reranker (error : RerankerError)

end MemoryEngine
