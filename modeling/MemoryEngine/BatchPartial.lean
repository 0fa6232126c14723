import MemoryEngine.BatchScopes
import MemoryEngine.Watermark

/-! A batch that reports on each entry. The entries that pass validation go into one
transaction; a scope path that cannot be written, an identity that differs and an event
that does not exist are only found there, and then no entry goes in. -/

namespace MemoryEngine
open Time KeyedTable Transaction Ingest

namespace EmbeddingMeta

/-- The identity that a write may record, or must agree with. -/
def Accepts (t : Tables) (candidate : EmbeddingFingerprint) (expected_dim : Nat) : Prop :=
  match t.activeSpace with
  | some space => space.fingerprint = candidate
  | none => candidate.dim = expected_dim ∧ EmbeddingSpaces.DimsFit candidate ∧
      ∀ s ∈ t.embedding_spaces, s.name ≠ EmbeddingSpace.DEFAULT_NAME

end EmbeddingMeta

namespace Ingest

section rows
variable {self : SqliteBackend}

/-- What the transaction of a batch needs from the store. -/
structure Storable (s : Db) (facts : List NewFact) (scope_paths : List (Option String)) (fingerprint : EmbeddingFingerprint) (expected_dim : Nat) :
    Prop where
  identity : EmbeddingMeta.Accepts s.toTables fingerprint expected_dim
  paths : ∀ path, some path ∈ scope_paths → WellFormedPath path
  events : ∀ fact ∈ facts, ∀ e ∈ fact.source_event_id, s.events.Has e

end rows

/-- What a batch of entries needs from the store. -/
structure Takes (s : Db) (entries : List AddFactRequest) (fingerprint : EmbeddingFingerprint) (expected_dim : Nat) : Prop where
  identity : EmbeddingMeta.Accepts s.toTables fingerprint expected_dim
  paths : ∀ entry ∈ entries, ∀ path ∈ entry.scope, WellFormedPath path
  events : ∀ entry ∈ entries, ∀ e ∈ entry.source_event_id, s.events.Has e

end Ingest

/-- The row holds the entry's own content and vector, in the scope it names, with the pin
    that was decided for it. -/
structure Fact.Answers (f : Fact) (t : Tables) (classifier : Option PersistenceClassifier) (entry : AddFactRequest) (vector : Embedding) : Prop where
  content : f.content = entry.content
  embedding : f.embedding = vector
  scope : t.LeadsTo entry.scope f.scope_id
  pinned : f.is_pinned = shouldPin entry classifier

namespace Ingest

section batch
variable {ctx : MemoryCtx} {entries : List AddFactRequest} {embedder : EmbeddingProvider} {classifier : Option PersistenceClassifier}
  {now : DateTime} {s t : Engine}

end batch

section delivery
variable (self : SqliteBackend)

/-- The entry passes validation and names a scope that may be written. -/
def sound (entry : AddFactRequest) : Bool := valid self entry && entry.scope.all fun path => decide (WellFormedPath path)

variable {self}

end delivery
end Ingest

namespace BatchPartial.Sample
open MemoryEngine.Sample

theorem embeds : ∀ texts, ∃ vectors, embedder.embed_batch texts = .ok vectors ∧ vectors.length = texts.length ∧
    ∀ vector ∈ vectors, vector.length = ctx.backend.embed_dim := by
  intro texts
  refine ⟨texts.map fun _ => [0x3F000000],rfl,List.length_map _,fun vector listed => ?_⟩
  obtain ⟨_,_,rfl⟩ := List.mem_map.mp listed
  rfl

/-- A request whose importance is out of range, beside a sound one. -/
def excessive : List AddFactRequest := [⟨"c",.Semantic,none,none,some { base_importance := some (F64.ofRat 2) }⟩,request "d" "a/b"]

/-- A request whose scope path has an empty label, beside a sound one. -/
def malformed : List AddFactRequest := [request "c" "a//b",request "d" "a/b"]

end BatchPartial.Sample

end MemoryEngine
