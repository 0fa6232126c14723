import MemoryEngine.Activities
import MemoryEngine.DreamCycle

/-! The provider that asks an HTTP endpoint for embeddings. A batch is one request, and the
response may list its items in any order. -/

namespace MemoryEngine

/-- What the provider takes from linked libraries and from the machine: the single that a number
    of a document reads as, the text of a document, the square root of a double and the single
    nearest to one. -/
structure EmbedLibraries where
  number : Json → Option F32
  to_string : Json → String
  sqrt : F64 → F64
  as_f32 : F64 → F32

structure HttpEmbeddingProvider where
  model : String
  provider : String
  expected_dim : Nat
  query_instruction : Option String
  mrl_dim : Option Nat
  within : ∀ target ∈ mrl_dim, 1 ≤ target ∧ target ≤ expected_dim

namespace HttpEmbeddingProvider

def new (model provider : String) (expected_dim : Nat) : HttpEmbeddingProvider :=
  ⟨model,provider,expected_dim,none,none,fun _ unset => by cases unset⟩

def with_query_instruction (self : HttpEmbeddingProvider) (instruction : String) : HttpEmbeddingProvider :=
  { self with query_instruction := some instruction }

def with_mrl_dim (self : HttpEmbeddingProvider) (mrl_dim : Nat) : Except MemoryError HttpEmbeddingProvider :=
  if outside : mrl_dim = 0 ∨ mrl_dim > self.expected_dim then
    .error (.Internal s!"invalid mrl_dim {mrl_dim}: must be in 1..={self.expected_dim} (the native expected_dim)")
  else .ok { self with
    mrl_dim := some mrl_dim
    within := fun target set => by
      cases set
      omega }

/-- The identity of the vectors as they are stored. -/
def fingerprint (self : HttpEmbeddingProvider) : EmbeddingFingerprint :=
  match self.mrl_dim with
  | some stored_dim => ⟨self.model,self.provider,stored_dim,some self.expected_dim,"float32"⟩
  | none => ⟨self.model,self.provider,self.expected_dim,none,"float32"⟩

/-- The shapes of a response. -/
inductive EmbeddingResponse where
  | OpenAi (data : List Json)
  | Ollama (embeddings : List Json)
  | Direct (embedding : Json)

/-- The first shape whose key is there with a value of its type. -/
def classify (body : Json) : Option EmbeddingResponse :=
  match body.lookup "data",body.lookup "embeddings",body.lookup "embedding" with
  | some (.arr data),_,_ => some (.OpenAi data)
  | _,some (.arr embeddings),_ => some (.Ollama embeddings)
  | _,_,some embedding => some (.Direct embedding)
  | _,_,none => none

section requests
variable (libraries : EmbedLibraries)

/-- A list of numbers. -/
def vector : Json → Option Embedding
  | .arr items => items.mapM libraries.number
  | _ => none

def read_index (item : Json) : Option Nat :=
  match item.lookup "index" with
  | some (.int i) => if 0 ≤ i ∧ i < 2 ^ 64 then some i.toNat else none
  | _ => none

def read_item (item : Json) : Except MemoryError (Nat × Embedding) :=
  match read_index item with
  | none => .error (.Internal "batch embedding: missing 'index' in data item")
  | some idx =>
    match (item.lookup "embedding").bind (vector libraries) with
    | none => .error (.Internal s!"batch embedding: cannot parse embedding at index {idx}")
    | some embedding => .ok (idx,embedding)

/-- The items sorted by their index, which has to count from zero. -/
def parse_openai_batch (data : List Json) (expected_count : Nat) : Except MemoryError (List Embedding) :=
  if data.length ≠ expected_count then
    .error (.Internal s!"batch embedding: expected {expected_count} results, got {data.length}")
  else do
    let pairs ← data.mapM (read_item libraries)
    let pairs := pairs.mergeSort fun a b => decide (a.1 ≤ b.1)
    match pairs.zipIdx.find? fun entry => decide (entry.1.1 ≠ entry.2) with
    | some ((idx,_),i) => .error (.Internal s!"batch embedding: expected index {i}, got {idx} (gap or duplicate)")
    | none => .ok (pairs.map Prod.snd)

def parse_ollama_batch (embeddings : List Json) (expected_count : Nat) : Except MemoryError (List Embedding) :=
  if embeddings.length ≠ expected_count then
    .error (.Internal s!"batch embedding: expected {expected_count} results, got {embeddings.length}")
  else embeddings.zipIdx.mapM fun entry =>
    match vector libraries entry.1 with
    | none => .error (.Internal s!"batch embedding: cannot parse embedding at index {entry.2}")
    | some embedding => .ok embedding

def finite (x : F32) : Bool :=
  match x.datum with
  | .finite _ => true
  | _ => false

def validate_embedding (self : HttpEmbeddingProvider) (emb : Embedding) (idx : Option Nat) : Except MemoryError Unit :=
  if emb.length ≠ self.expected_dim then .error (.EmbeddingDimension self.expected_dim emb.length)
  else if emb.any fun v => !finite v then
    .error (.Internal (match idx with
      | none => "embedding contains NaN or Inf"
      | some i => s!"embedding at index {i} contains NaN or Inf"))
  else .ok ()

/-- The norm of the components, summed up as doubles. -/
def norm (emb : Embedding) : F64 := libraries.sqrt ((emb.map fun x => x.toF64.mul x.toF64).foldl F64.add (F64.ofRat 0))

def mrl_truncate (emb : Embedding) (target : Nat) : Except MemoryError Embedding :=
  if target > emb.length then .error (.Internal s!"mrl_dim {target} exceeds embedding dimension {emb.length}")
  else
    match (norm libraries (emb.take target)).datum with
    | .finite q =>
      if q = 0 then .error (.Internal "mrl truncation: prefix has zero or non-finite L2 norm; cannot renormalize")
      else .ok ((emb.take target).map fun x => libraries.as_f32 (x.toF64.div (norm libraries (emb.take target))))
    | _ => .error (.Internal "mrl truncation: prefix has zero or non-finite L2 norm; cannot renormalize")

def maybe_truncate (self : HttpEmbeddingProvider) (emb : Embedding) : Except MemoryError Embedding :=
  match self.mrl_dim with
  | some target => mrl_truncate libraries emb target
  | none => .ok emb

def truncate_on_char_boundary (s : String) (max : Nat) : String := if s.utf8ByteSize ≤ max then s else truncate s max ++ "... (truncated)"

variable (send_request : Json → Except MemoryError Json)

/-- The first embedding of a response. -/
def single_embedding (body : Json) : Option Embedding :=
  match classify body with
  | some (.OpenAi data) => (data.head?.bind (Json.lookup "embedding")).bind (vector libraries)
  | some (.Ollama embeddings) => embeddings.head?.bind (vector libraries)
  | some (.Direct embedding) => vector libraries embedding
  | none => none

def embed (self : HttpEmbeddingProvider) (text : String) : Except MemoryError Embedding := do
  let body ← send_request (Json.object [("model",.str self.model),("input",.str text)])
  match single_embedding libraries body with
  | none => .error (.Internal s!"cannot extract embedding from response: {libraries.to_string body}")
  | some embedding => do
    self.validate_embedding embedding none
    self.maybe_truncate libraries embedding

/-- The embeddings of a batch response. -/
def batch_embeddings (body : Json) (count : Nat) : Except MemoryError (List Embedding) :=
  match classify body with
  | some (.OpenAi data) => parse_openai_batch libraries data count
  | some (.Ollama embeddings) => parse_ollama_batch libraries embeddings count
  | some (.Direct embedding) =>
    if count ≠ 1 then .error (.Internal s!"batch embedding: server returned a single 'embedding' but {count} texts were requested")
    else
      match vector libraries embedding with
      | none => .error (.Internal "batch embedding: cannot parse single 'embedding'")
      | some emb => .ok [emb]
  | none => .error (.Internal s!"cannot extract embeddings from batch response: {truncate_on_char_boundary (libraries.to_string body) 1000}")

def embed_batch (self : HttpEmbeddingProvider) (texts : List String) : Except MemoryError (List Embedding) :=
  if texts = [] then .ok [] else do
    let body ← send_request (Json.object [("model",.str self.model),("input",.arr (texts.map .str))])
    let embeddings ← batch_embeddings libraries body texts.length
    embeddings.zipIdx.forM fun entry => self.validate_embedding entry.1 (some entry.2)
    embeddings.mapM (self.maybe_truncate libraries)

/-- A query goes out behind the instruction, a document does not. -/
def query_text (self : HttpEmbeddingProvider) (text : String) : String := self.query_instruction.getD "" ++ text

def embed_query (self : HttpEmbeddingProvider) (text : String) : Except MemoryError Embedding :=
  self.embed libraries send_request (self.query_text text)

def embed_query_batch (self : HttpEmbeddingProvider) (texts : List String) : Except MemoryError (List Embedding) :=
  self.embed_batch libraries send_request (texts.map self.query_text)

end requests

/-! ### What a batch response says -/

/-- A pass succeeds with the results of its items. -/
theorem mapM_forall₂ {α β : Type} {make : α → Except MemoryError β} {items : List α} {results : List β} :
    items.mapM make = .ok results ↔ List.Forall₂ (fun a b => make a = .ok b) items results := by
  induction items generalizing results with
  | nil => cases results <;> simp [pure,Except.pure]
  | cons a rest ih =>
    rw [List.mapM_cons,made_bind]
    constructor
    · rintro ⟨b,first,later⟩
      obtain ⟨bs,passed,done⟩ := made_bind.mp later
      cases done
      exact .cons first (ih.mp passed)
    · rintro (_ | ⟨first,later⟩)
      exact ⟨_,first,made_bind.mpr ⟨_,ih.mpr later,rfl⟩⟩

theorem forM_ok {α : Type} {check : α → Except MemoryError Unit} {items : List α} :
    items.forM check = .ok () ↔ ∀ a ∈ items, check a = .ok () := by
  induction items with
  | nil => simp [pure,Except.pure]
  | cons a rest ih =>
    change (check a >>= fun _ => rest.forM check) = _ ↔ _
    rw [made_bind,List.forall_mem_cons,← ih]
    exact ⟨fun ⟨_,first,later⟩ => ⟨first,later⟩,fun ⟨first,later⟩ => ⟨(),first,later⟩⟩

/-- The items of a complete response, in order. -/
def numbered (embeddings : List Embedding) : List (Nat × Embedding) := embeddings.zipIdx.map Prod.swap

theorem numbered_sorted (embeddings : List Embedding) : (numbered embeddings).Pairwise fun a b => a.1 < b.1 := by
  rw [numbered,List.pairwise_map]
  exact List.pairwise_iff_getElem.mpr fun i j _ _ before => by simpa using before

theorem numbered_snd (embeddings : List Embedding) : (numbered embeddings).map Prod.snd = embeddings := by
  rw [numbered,List.map_map]
  exact List.zipIdx_map_fst 0 embeddings

/-- Two complete responses with the same items are the same. -/
theorem eq_numbered {sorted : List (Nat × Embedding)} {embeddings : List Embedding} (ordered : sorted.Pairwise fun a b => a.1 ≤ b.1)
    (complete : sorted.Perm (numbered embeddings)) : sorted = numbered embeddings := by
  have distinct : ((numbered embeddings).map Prod.fst).Nodup := List.pairwise_map.mpr ((numbered_sorted embeddings).imp Nat.ne_of_lt)
  refine complete.eq_of_pairwise (fun a b left right below above => ?_) ordered ((numbered_sorted embeddings).imp Nat.le_of_lt)
  exact List.inj_on_of_nodup_map distinct (complete.subset left) right (Nat.le_antisymm below above)

theorem numbered_injective {embeddings embeddings' : List Embedding} (same : (numbered embeddings).Perm (numbered embeddings')) :
    embeddings = embeddings' := by
  rw [← numbered_snd embeddings,← numbered_snd embeddings',eq_numbered ((numbered_sorted embeddings).imp Nat.le_of_lt) same]

/-- A list that counts from zero is a complete response. -/
theorem counts_iff {sorted : List (Nat × Embedding)} :
    (sorted.zipIdx.find? fun entry => decide (entry.1.1 ≠ entry.2)) = none ↔ sorted = numbered (sorted.map Prod.snd) := by
  rw [List.find?_eq_none,numbered,List.zipIdx_map,List.map_map]
  constructor
  · intro counted
    refine List.ext_getElem (by simp) fun i inside _ => ?_
    have entry := counted (sorted[i],i) (List.mk_mem_zipIdx_iff_getElem?.mpr (List.getElem?_eq_getElem inside))
    simp only [decide_eq_true_eq,not_not] at entry
    simp only [List.getElem_map,List.getElem_zipIdx,Function.comp_apply,Nat.zero_add]
    exact Prod.ext entry rfl
  · intro counts entry member
    obtain ⟨i,inside,rfl⟩ := List.getElem_of_mem member
    rw [List.length_zipIdx] at inside
    have place := List.getElem_of_eq counts inside
    simp only [List.getElem_map,List.getElem_zipIdx,Function.comp_apply,Nat.zero_add] at place
    simp only [List.getElem_zipIdx,Nat.zero_add,decide_eq_true_eq,not_not]
    rw [place]
    rfl

section responses
variable {libraries : EmbedLibraries} {data vectors : List Json} {embeddings : List Embedding} {n : Nat}

/-- A batch is accepted if its items, in any order, are numbered from zero. -/
theorem parse_openai_batch_ok : parse_openai_batch libraries data n = .ok embeddings ↔
    data.length = n ∧ ∃ pairs, List.Forall₂ (fun item pair => read_item libraries item = .ok pair) data pairs ∧
      pairs.Perm (numbered embeddings) := by
  unfold parse_openai_batch
  split
  · rename_i other
    exact ⟨fun parsed => (by cases parsed),fun complete => absurd complete.1 other⟩
  · rename_i same
    rw [made_bind]
    refine ⟨fun ⟨pairs,passed,checked⟩ => ⟨not_not.mp same,pairs,mapM_forall₂.mp passed,?_⟩,
      fun ⟨_,pairs,passed,complete⟩ => ⟨pairs,mapM_forall₂.mpr passed,?_⟩⟩
    · dsimp only at checked
      split at checked
      · cases checked
      · rename_i counted
        cases checked
        rw [← counts_iff.mp counted]
        exact (List.mergeSort_perm _ _).symm
    · have ordered : (pairs.mergeSort fun a b => decide (a.1 ≤ b.1)).Pairwise fun a b => a.1 ≤ b.1 := by
        refine (List.pairwise_mergeSort ?_ ?_ pairs).imp fun below => of_decide_eq_true below
        · exact fun a b c first second => decide_eq_true (Nat.le_trans (of_decide_eq_true first) (of_decide_eq_true second))
        · intro a b
          simpa using Nat.le_total a.1 b.1
      have sorted := eq_numbered ordered ((List.mergeSort_perm _ _).trans complete)
      have counted : ((numbered embeddings).zipIdx.find? fun entry => decide (entry.1.1 ≠ entry.2)) = none :=
        counts_iff.mpr (by rw [numbered_snd])
      dsimp only
      rw [sorted,counted,numbered_snd]

theorem parse_ollama_batch_ok : parse_ollama_batch libraries vectors n = .ok embeddings ↔
    vectors.length = n ∧ List.Forall₂ (fun v e => vector libraries v = some e) vectors embeddings := by
  unfold parse_ollama_batch
  split
  · rename_i other
    exact ⟨fun parsed => (by cases parsed),fun complete => absurd complete.1 other⟩
  · rename_i same
    have entries : vectors = vectors.zipIdx.map Prod.fst := (List.zipIdx_map_fst 0 vectors).symm
    rw [mapM_forall₂,and_iff_right (not_not.mp same)]
    conv_rhs => rw [entries,List.forall₂_map_left_iff]
    refine ⟨fun passed => passed.imp fun entry e parsed => ?_,fun read => read.imp fun entry e parsed => ?_⟩
    · split at parsed
      · cases parsed
      · rename_i found
        cases parsed
        exact found
    · rw [parsed]

/-- The response to one text carries this vector. -/
def Carries (v : Json) : Option EmbeddingResponse → Prop
  | some (.OpenAi data) => data.head?.bind (Json.lookup "embedding") = some v
  | some (.Ollama embeddings) => embeddings.head? = some v
  | some (.Direct embedding) => embedding = v
  | none => False

/-- The response to a batch carries these vectors, in the first shape in any order. -/
def CarriesAll (vectors : List Json) : Option EmbeddingResponse → Prop
  | some (.OpenAi data) => ∃ items, data.Perm items ∧
      List.Forall₂ (fun item entry => read_index item = some entry.2 ∧ item.lookup "embedding" = some entry.1) items vectors.zipIdx
  | some (.Ollama embeddings) => embeddings = vectors
  | some (.Direct embedding) => vectors = [embedding]
  | none => False

theorem read_item_ok {item : Json} {pair : Nat × Embedding} : read_item libraries item = .ok pair ↔
    read_index item = some pair.1 ∧ (item.lookup "embedding").bind (vector libraries) = some pair.2 := by
  unfold read_item
  cases read_index item with
  | none => simp
  | some idx =>
    cases (item.lookup "embedding").bind (vector libraries) with
    | none => simp
    | some embedding => simp [Prod.ext_iff]

/-- Where the items carry the vectors in order, each reads as its own. -/
theorem read_items {items : List Json} {pairs : List (Nat × Embedding)} {k : Nat}
    (carries : List.Forall₂ (fun item entry => read_index item = some entry.2 ∧ item.lookup "embedding" = some entry.1) items (vectors.zipIdx k)) :
    List.Forall₂ (fun item pair => read_item libraries item = .ok pair) items pairs ↔
      ∃ es : List Embedding, pairs = (es.zipIdx k).map Prod.swap ∧ List.Forall₂ (fun v e => vector libraries v = some e) vectors es := by
  induction vectors generalizing items pairs k with
  | nil =>
    cases carries
    constructor
    · rintro ⟨⟩
      exact ⟨[],rfl,.nil⟩
    · rintro ⟨es,rfl,⟨⟩⟩
      exact .nil
  | cons v vectors ih =>
    rw [List.zipIdx_cons] at carries
    obtain _ | ⟨⟨index,found⟩,later⟩ := carries
    constructor
    · rintro (_ | @⟨_,pair,_,_,read,others⟩)
      obtain ⟨index',parsed⟩ := read_item_ok.mp read
      obtain ⟨es,rfl,rest⟩ := (ih later).mp others
      cases index.symm.trans index'
      rw [found] at parsed
      exact ⟨pair.2 :: es,rfl,.cons parsed rest⟩
    · rintro ⟨_,rfl,_ | ⟨parsed,rest⟩⟩
      refine .cons (read_item_ok.mpr ⟨index,?_⟩) ((ih later).mpr ⟨_,rfl,rest⟩)
      rw [found]
      exact parsed

/-- A batch response that carries the vectors yields them, in the order of the texts. -/
theorem batch_embeddings_ok {body : Json} (carries : CarriesAll vectors (classify body)) :
    batch_embeddings libraries body vectors.length = .ok embeddings ↔ List.Forall₂ (fun v e => vector libraries v = some e) vectors embeddings := by
  unfold batch_embeddings
  split
  · rename_i data shape
    rw [shape] at carries
    obtain ⟨items,order,carried⟩ := carries
    have count : data.length = vectors.length := by rw [order.length_eq,carried.length_eq,List.length_zipIdx]
    rw [parse_openai_batch_ok,and_iff_right count]
    constructor
    · rintro ⟨pairs,read,complete⟩
      obtain ⟨pairs',read',order'⟩ := List.perm_comp_forall₂ order.symm read
      obtain ⟨es,rfl,parsed⟩ := (read_items carried).mp read'
      rwa [numbered_injective (complete.symm.trans order'.symm)]
    · intro parsed
      have read : List.Forall₂ (fun item pair => read_item libraries item = .ok pair) items (numbered embeddings) :=
        (read_items carried).mpr ⟨embeddings,rfl,parsed⟩
      obtain ⟨pairs,read',order'⟩ := List.perm_comp_forall₂ order read
      exact ⟨pairs,read',order'⟩
  · rename_i listed shape
    rw [shape] at carries
    cases carries
    rw [parse_ollama_batch_ok,and_iff_right rfl]
  · rename_i embedding shape
    rw [shape] at carries
    cases carries
    have one : ¬ [embedding].length ≠ 1 := fun many => many rfl
    rw [if_neg one]
    cases found : vector libraries embedding with
    | none =>
      refine ⟨fun parsed => (by cases parsed),fun read => ?_⟩
      obtain _ | ⟨first,_⟩ := read
      cases found.symm.trans first
    | some emb =>
      constructor
      · rintro ⟨⟩
        exact .cons found .nil
      · rintro (_ | ⟨first,rest⟩)
        cases rest
        cases found.symm.trans first
        rfl
  · rename_i shape
    rw [shape] at carries
    exact carries.elim

/-! ### One request for all texts -/

/-- The native embedding is in order, and this is what the engine stores of it. -/
structure Stored (libraries : EmbedLibraries) (provider : HttpEmbeddingProvider) (native stored : Embedding) : Prop where
  dim : native.length = provider.expected_dim
  finite : ∀ x ∈ native, finite x = true
  truncated : provider.maybe_truncate libraries native = .ok stored

variable {self : HttpEmbeddingProvider}

theorem validate_embedding_ok {emb : Embedding} {idx : Option Nat} :
    self.validate_embedding emb idx = .ok () ↔ emb.length = self.expected_dim ∧ ∀ x ∈ emb, finite x = true := by
  unfold validate_embedding
  split
  · rename_i other
    exact ⟨fun passed => (by cases passed),fun valid => absurd valid.1 other⟩
  · rename_i same
    split
    · rename_i strange
      refine ⟨fun passed => (by cases passed),fun valid => ?_⟩
      obtain ⟨x,member,infinite⟩ := List.any_eq_true.mp strange
      rw [valid.2 x member] at infinite
      cases infinite
    · rename_i plain
      refine ⟨fun _ => ⟨not_not.mp same,fun x member => ?_⟩,fun _ => rfl⟩
      by_contra infinite
      exact plain (List.any_eq_true.mpr ⟨x,member,by simpa using infinite⟩)

/-- What is stored has the dimension of the fingerprint. -/
theorem Stored.length {native stored : Embedding} (kept : Stored libraries self native stored) : stored.length = self.fingerprint.dim := by
  have truncated := kept.truncated
  unfold maybe_truncate at truncated
  unfold fingerprint
  cases set : self.mrl_dim with
  | none =>
    rw [set] at truncated
    cases truncated
    exact kept.dim
  | some target =>
    have fits := (self.within target set).2
    rw [set] at truncated
    unfold mrl_truncate at truncated
    dsimp only at truncated ⊢
    split at truncated
    · cases truncated
    · split at truncated
      · split at truncated
        · cases truncated
        · cases truncated
          rw [List.length_map,List.length_take,kept.dim]
          exact Nat.min_eq_left fits
      · cases truncated

variable {send_request : Json → Except MemoryError Json} {text : String} {texts : List String} {stored : List Embedding}

theorem single_embedding_eq {body v : Json} (carries : Carries v (classify body)) : single_embedding libraries body = vector libraries v := by
  unfold single_embedding
  split
  · rename_i shape
    rw [shape] at carries
    exact congrArg (fun found => Option.bind found (vector libraries)) carries
  · rename_i shape
    rw [shape] at carries
    exact congrArg (fun found => Option.bind found (vector libraries)) carries
  · rename_i shape
    rw [shape] at carries
    exact congrArg (vector libraries) carries
  · rename_i shape
    rw [shape] at carries
    exact carries.elim

theorem embed_ok {body : Json} {emb : Embedding} (asked : send_request (Json.object [("model",.str self.model),("input",.str text)]) = .ok body) :
    self.embed libraries send_request text = .ok emb ↔
      ∃ native, single_embedding libraries body = some native ∧ Stored libraries self native emb := by
  unfold embed
  rw [made_bind]
  constructor
  · rintro ⟨_,answered,rest⟩
    cases asked.symm.trans answered
    split at rest
    · cases rest
    · rename_i native found
      obtain ⟨_,valid,truncated⟩ := made_bind.mp rest
      exact ⟨native,found,(validate_embedding_ok.mp valid).1,(validate_embedding_ok.mp valid).2,truncated⟩
  · rintro ⟨native,found,kept⟩
    refine ⟨body,asked,?_⟩
    rw [found]
    exact made_bind.mpr ⟨(),validate_embedding_ok.mpr ⟨kept.dim,kept.finite⟩,kept.truncated⟩

/-- The embeddings are stored one by one. -/
theorem batch_stored {natives : List Embedding} :
    ((natives.zipIdx.forM fun entry => self.validate_embedding entry.1 (some entry.2)) = .ok () ∧
      natives.mapM (self.maybe_truncate libraries) = .ok stored) ↔ List.Forall₂ (Stored libraries self) natives stored := by
  rw [forM_ok,mapM_forall₂]
  have valid : (∀ entry ∈ natives.zipIdx, self.validate_embedding entry.1 (some entry.2) = .ok ()) ↔
      ∀ native ∈ natives, native.length = self.expected_dim ∧ ∀ x ∈ native, finite x = true := by
    simp only [validate_embedding_ok]
    conv_rhs => rw [← List.zipIdx_map_fst 0 natives,List.forall_mem_map]
  rw [valid,← List.forall₂_and_left]
  exact ⟨fun kept => kept.imp fun _ _ held => ⟨held.1.1,held.1.2,held.2⟩,fun kept => kept.imp fun _ _ held => ⟨⟨held.dim,held.finite⟩,held.truncated⟩⟩

/-- A batch is stored as its embeddings are. -/
theorem embed_batch_ok {body : Json} (some_text : texts ≠ [])
    (asked : send_request (Json.object [("model",.str self.model),("input",.arr (texts.map .str))]) = .ok body) :
    self.embed_batch libraries send_request texts = .ok stored ↔
      ∃ natives, batch_embeddings libraries body texts.length = .ok natives ∧ List.Forall₂ (Stored libraries self) natives stored := by
  unfold embed_batch
  rw [if_neg some_text,made_bind]
  constructor
  · rintro ⟨_,answered,rest⟩
    cases asked.symm.trans answered
    obtain ⟨natives,extracted,checking⟩ := made_bind.mp rest
    obtain ⟨_,checked,truncating⟩ := made_bind.mp checking
    exact ⟨natives,extracted,batch_stored.mp ⟨checked,truncating⟩⟩
  · rintro ⟨natives,extracted,kept⟩
    obtain ⟨checked,truncating⟩ := batch_stored.mpr kept
    exact ⟨body,asked,made_bind.mpr ⟨natives,extracted,made_bind.mpr ⟨(),checked,truncating⟩⟩⟩

/-- The endpoint knows one vector for each text, and answers any request with those of its texts. -/
structure Answers (send_request : Json → Except MemoryError Json) (model : String) (known : String → Json) : Prop where
  one : ∀ text, ∃ body, send_request (Json.object [("model",.str model),("input",.str text)]) = .ok body ∧ Carries (known text) (classify body)
  all : ∀ texts, texts ≠ [] → ∃ body, send_request (Json.object [("model",.str model),("input",.arr (texts.map .str))]) = .ok body ∧
    CarriesAll (texts.map known) (classify body)

/-- The text is known by an embedding that is stored so. -/
def Known (libraries : EmbedLibraries) (provider : HttpEmbeddingProvider) (known : String → Json) (text : String) (emb : Embedding) : Prop :=
  ∃ native, vector libraries (known text) = some native ∧ Stored libraries provider native emb

theorem forall₂_known {known : String → Json} : List.Forall₂ (Known libraries self known) texts stored ↔
    ∃ natives, List.Forall₂ (fun v e => vector libraries v = some e) (texts.map known) natives ∧ List.Forall₂ (Stored libraries self) natives stored := by
  induction texts generalizing stored with
  | nil =>
    constructor
    · rintro ⟨⟩
      exact ⟨[],.nil,.nil⟩
    · rintro ⟨_,⟨⟩,⟨⟩⟩
      exact .nil
  | cons text texts ih =>
    constructor
    · rintro (_ | ⟨⟨native,found,kept⟩,later⟩)
      obtain ⟨natives,parsed,held⟩ := ih.mp later
      exact ⟨native :: natives,.cons found parsed,.cons kept held⟩
    · rintro ⟨_,_ | ⟨found,parsed⟩,_ | ⟨kept,held⟩⟩
      exact .cons ⟨_,found,kept⟩ (ih.mpr ⟨_,parsed,held⟩)

/-- One request for all texts gives what a request for each of them gives, in the same order,
    whatever the shapes of the responses and the order of their items; so for queries. -/
theorem embed_batch_iff_each {known : String → Json} (answers : Answers send_request self.model known) (texts : List String)
    (stored : List Embedding) :
    (self.embed_batch libraries send_request texts = .ok stored ↔ texts.mapM (self.embed libraries send_request) = .ok stored) ∧
    (self.embed_query_batch libraries send_request texts = .ok stored ↔ texts.mapM (self.embed_query libraries send_request) = .ok stored) := by
  have each : ∀ text emb, self.embed libraries send_request text = .ok emb ↔ Known libraries self known text emb := by
    intro text emb
    obtain ⟨body,asked,carries⟩ := answers.one text
    rw [embed_ok asked,single_embedding_eq carries]
    rfl
  have batch : ∀ texts : List String, self.embed_batch libraries send_request texts = .ok stored ↔
      List.Forall₂ (Known libraries self known) texts stored := by
    intro texts
    by_cases silent : texts = []
    · rw [silent,List.forall₂_nil_left_iff]
      exact ⟨fun done => (Except.ok.inj done).symm,fun done => by rw [done]; rfl⟩
    · obtain ⟨body,asked,carries⟩ := answers.all texts silent
      rw [embed_batch_ok silent asked,forall₂_known]
      have count : (texts.map known).length = texts.length := List.length_map known
      refine exists_congr fun natives => and_congr_left fun _ => ?_
      rw [← count]
      exact batch_embeddings_ok carries
  constructor
  · rw [batch,mapM_forall₂]
    exact ⟨fun known => known.imp fun text emb held => (each text emb).mpr held,fun passed => passed.imp fun text emb held => (each text emb).mp held⟩
  · rw [embed_query_batch,batch,mapM_forall₂,List.forall₂_map_left_iff]
    exact ⟨fun known => known.imp fun text emb held => (each _ emb).mpr held,fun passed => passed.imp fun text emb held => (each _ emb).mp held⟩

end responses

namespace Sample

/-- Every number reads as one or two. -/
def libraries : EmbedLibraries := ⟨fun j => some (match j with | .int 2 => 0x40000000 | _ => 0x3F800000),fun _ => "",id,fun _ => 0⟩

def provider : HttpEmbeddingProvider := (new "m" "p" 1).with_query_instruction "q: "

/-- The one component is two where the text is "b". -/
def known (text : String) : Json := .arr [.int (if text = "b" then 2 else 1)]

def item (i : Int) (v : Json) : Json := .obj [("embedding",v),("index",.int i)]

/-- An endpoint with three shapes, which answers a pair of texts from the last one on. -/
def endpoint (payload : Json) : Except MemoryError Json :=
  match payload.lookup "input" with
  | some (.str text) => .ok (.obj [("embedding",known text)])
  | some (.arr [.str a,.str b]) => .ok (.obj [("data",.arr [item 1 (known b),item 0 (known a)])])
  | some (.arr texts) => .ok (.obj [("embeddings",.arr (texts.map fun text => match text with | .str t => known t | _ => .null))])
  | _ => .error (.Internal "bad request")

theorem payload_input (v : Json) : (Json.object [("model",.str "m"),("input",v)]).lookup "input" = some v := by
  have before : "input" < "model" := by decide
  simp [Json.object,Json.mergeFields,Json.insertField,before,Json.lookup,Json.fields]

theorem answers : Answers endpoint "m" known where
  one text := ⟨.obj [("embedding",known text)],by rw [endpoint,payload_input],rfl⟩
  all texts some_text := by
    simp only [endpoint,payload_input]
    match texts with
    | [a,b] =>
      exact ⟨_,rfl,[item 0 (known a),item 1 (known b)],List.Perm.swap _ _ _,.cons ⟨rfl,rfl⟩ (.cons ⟨rfl,rfl⟩ .nil)⟩
    | [a] => exact ⟨_,rfl,rfl⟩
    | a :: b :: c :: rest =>
      refine ⟨_,rfl,?_⟩
      change List.map _ ((a :: b :: c :: rest).map Json.str) = _
      rw [List.map_map]
      rfl

/-- A pair of texts in one request. -/
theorem batch_pair : provider.embed_batch libraries endpoint ["a","b"] = .ok [[0x3F800000],[0x40000000]] := by
  have stored : List.Forall₂ (Known libraries provider known) ["a","b"] [[0x3F800000],[0x40000000]] :=
    .cons ⟨[0x3F800000],rfl,rfl,List.forall_mem_singleton.mpr rfl,rfl⟩
      (.cons ⟨[0x40000000],rfl,rfl,List.forall_mem_singleton.mpr rfl,rfl⟩ .nil)
  obtain ⟨body,asked,carries⟩ := answers.all ["a","b"] (List.cons_ne_nil _ _)
  obtain ⟨natives,parsed,kept⟩ := forall₂_known.mp stored
  exact (embed_batch_ok (List.cons_ne_nil _ _) asked).mpr ⟨natives,(batch_embeddings_ok carries).mpr parsed,kept⟩

end Sample

theorem embed_batch_iff_each_pair :
    ["a","b"].mapM (Sample.provider.embed Sample.libraries Sample.endpoint) = .ok [[0x3F800000],[0x40000000]] :=
  (embed_batch_iff_each Sample.answers _ _).1.mp Sample.batch_pair

section sound
variable {libraries : EmbedLibraries} {self : HttpEmbeddingProvider} {send_request : Json → Except MemoryError Json} {texts : List String}
  {stored embeddings : List Embedding} {n : Nat}

theorem forall₂_left {α β : Type} {R : α → β → Prop} {l : List α} {u : List β} (related : List.Forall₂ R l u) {a : α} (member : a ∈ l) :
    ∃ b ∈ u, R a b := by
  obtain ⟨i,inside,rfl⟩ := List.getElem_of_mem member
  have inside' : i < u.length := related.length_eq ▸ inside
  exact ⟨u[i],List.getElem_mem inside',related.get inside inside'⟩

/-- Any response that is accepted has as many embeddings as there are texts. -/
theorem batch_embeddings_length {body : Json} (extracted : batch_embeddings libraries body n = .ok embeddings) : embeddings.length = n := by
  unfold batch_embeddings at extracted
  split at extracted
  · obtain ⟨rfl,pairs,read,complete⟩ := parse_openai_batch_ok.mp extracted
    rw [read.length_eq,complete.length_eq,numbered,List.length_map,List.length_zipIdx]
  · obtain ⟨rfl,parsed⟩ := parse_ollama_batch_ok.mp extracted
    exact parsed.length_eq.symm
  · split at extracted
    · cases extracted
    · rename_i one
      split at extracted
      · cases extracted
      · cases extracted
        exact (not_not.mp one).symm
  · cases extracted

/-- Whatever the endpoint sends, a batch that succeeds has one vector of the stored dimension for
    each text, and an item with an index gives the vector of the text at that index. -/
theorem embed_batch_sound (succeeded : self.embed_batch libraries send_request texts = .ok stored) :
    stored.length = texts.length ∧ (∀ emb ∈ stored, emb.length = self.fingerprint.dim) ∧
      ∀ body data, send_request (Json.object [("model",.str self.model),("input",.arr (texts.map .str))]) = .ok body →
        classify body = some (.OpenAi data) → texts ≠ [] → data.length = texts.length ∧ (data.map read_index).Nodup ∧
          ∀ item ∈ data, ∃ i native emb, read_index item = some i ∧ (item.lookup "embedding").bind (vector libraries) = some native ∧
            stored[i]? = some emb ∧ Stored libraries self native emb := by
  by_cases silent : texts = []
  · subst silent
    cases succeeded
    exact ⟨rfl,fun emb none_stored => (by cases none_stored),fun _ _ _ _ some_text => absurd rfl some_text⟩
  · cases asked : send_request (Json.object [("model",.str self.model),("input",.arr (texts.map .str))]) with
    | error e =>
      unfold embed_batch at succeeded
      rw [if_neg silent,asked] at succeeded
      cases succeeded
    | ok body =>
      obtain ⟨natives,extracted,kept⟩ := (embed_batch_ok silent asked).mp succeeded
      have dims : ∀ emb ∈ stored, emb.length = self.fingerprint.dim := by
        intro emb member
        obtain ⟨native,_,held⟩ := forall₂_left kept.flip member
        exact Stored.length held
      refine ⟨kept.length_eq.symm.trans (batch_embeddings_length extracted),dims,?_⟩
      rintro _ data ⟨⟩ shape _
      unfold batch_embeddings at extracted
      rw [shape] at extracted
      obtain ⟨length,pairs,read,complete⟩ := parse_openai_batch_ok.mp extracted
      refine ⟨length,?_,fun item member => ?_⟩
      · have indices : data.map read_index = pairs.map fun pair => some pair.1 := by
          rw [← List.forall₂_eq_eq_eq,List.forall₂_map_left_iff,List.forall₂_map_right_iff]
          exact read.imp fun item pair parsed => (read_item_ok.mp parsed).1
        have distinct : ((numbered natives).map fun pair => some pair.1).Nodup :=
          List.pairwise_map.mpr ((numbered_sorted natives).imp fun before same => before.ne (Option.some.inj same))
        rw [indices]
        exact (complete.map fun pair => some pair.1).nodup_iff.mpr distinct
      · obtain ⟨pair,listed,parsed⟩ := forall₂_left read member
        obtain ⟨index,found⟩ := read_item_ok.mp parsed
        obtain ⟨entry,place,rfl⟩ := List.mem_map.mp (complete.mem_iff.mp listed)
        have here := List.mem_zipIdx_iff_getElem?.mp place
        obtain ⟨inside,native⟩ := List.getElem?_eq_some_iff.mp here
        have inside' : entry.2 < stored.length := kept.length_eq ▸ inside
        have held := kept.get inside inside'
        refine ⟨entry.2,entry.1,stored[entry.2],index,found,List.getElem?_eq_getElem inside',?_⟩
        rw [← native]
        exact held

end sound

theorem embed_batch_sound_pair : ([[0x3F800000],[0x40000000]] : List Embedding).length = ["a","b"].length ∧
    ∀ emb ∈ ([[0x3F800000],[0x40000000]] : List Embedding), emb.length = Sample.provider.fingerprint.dim :=
  have sound := embed_batch_sound Sample.batch_pair
  ⟨sound.1,sound.2.1⟩

end HttpEmbeddingProvider
end MemoryEngine
