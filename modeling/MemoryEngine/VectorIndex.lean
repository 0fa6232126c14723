import MemoryEngine.Query
import MemoryEngine.SlotLog

/-! The index of the vectors of the active facts. It lives beside the database, is built from
it, and is told of every later fact after the fact has been committed. -/

namespace MemoryEngine
open Time KeyedTable Transaction SlotLog Search

/-- The graph of the crate, which numbers the vectors it is given and owns them. -/
structure Hnsw where
  Graph : Type
  new : Graph
  len : Graph → Nat
  insert : Embedding → Graph → Nat × Graph
  feature : Graph → Nat → Option Embedding

/-- Numbers are handed out in order, and a vector stays under its number. -/
structure Hnsw.Sequential (hnsw : Hnsw) : Prop where
  empty : hnsw.len hnsw.new = 0
  number : ∀ v g, (hnsw.insert v g).1 = hnsw.len g
  grown : ∀ v g, hnsw.len (hnsw.insert v g).2 = hnsw.len g + 1
  stored : ∀ v g, hnsw.feature (hnsw.insert v g).2 (hnsw.len g) = some v
  kept : ∀ v g, ∀ i < hnsw.len g, hnsw.feature (hnsw.insert v g).2 i = hnsw.feature g i

structure HnswInner (hnsw : Hnsw) where
  index : hnsw.Graph
  index_to_fact : List FactId
  fact_to_hnsw : FactId → Option Nat
  tombstones : List Nat

namespace HnswInner
variable {hnsw : Hnsw}

def new_hnsw_index (hnsw : Hnsw) : HnswInner hnsw := ⟨hnsw.new,[],fun _ => none,[]⟩

/-- One entry of a build. -/
def insertEntry (embed_dim : Nat) (inner : HnswInner hnsw) (entry : FactId × Embedding) : Except MemoryError (HnswInner hnsw) :=
  if entry.2.length ≠ embed_dim then .error (.EmbeddingDimension embed_dim entry.2.length)
  else
    let (hnsw_id,index) := hnsw.insert entry.2 inner.index
    let expected := inner.index_to_fact.length
    if hnsw_id ≠ expected then .error (.Internal s!"HNSW index must assign sequential IDs (got {hnsw_id}, expected {expected})")
    else .ok { inner with
      index := index
      index_to_fact := inner.index_to_fact ++ [entry.1]
      fact_to_hnsw := Function.update inner.fact_to_hnsw entry.1 (some hnsw_id) }

/-- Entries that may each be an error, with which the build then ends. -/
def build_hnsw_inner (hnsw : Hnsw) (entries : List (Except MemoryError (FactId × Embedding))) (embed_dim : Nat) :
    Except MemoryError (HnswInner hnsw) :=
  entries.foldlM (fun inner entry => do insertEntry embed_dim inner (← entry)) (new_hnsw_index hnsw)

/-- Rows are decoded one at a time as the build comes to them. -/
def build_inner (hnsw : Hnsw) (t : Tables) (embed_dim : Nat) : Except MemoryError (HnswInner hnsw) :=
  t.activeFacts.foldlM (fun inner f => do insertEntry embed_dim inner (f.id,← deserialize_embedding embed_dim f)) (new_hnsw_index hnsw)

/-- The numbering is checked before the graph is touched. -/
def notify_insert (inner : HnswInner hnsw) (fact_id : FactId) (embedding : Embedding) : Except MemoryError (HnswInner hnsw) :=
  let expected_id := inner.index_to_fact.length
  let len := hnsw.len inner.index
  if len ≠ expected_id then .error (.IndexInconsistent fact_id
    s!"HNSW sequential ID invariant violated on insert: index has {len} nodes, expected {expected_id}. This indicates a bug in the hnsw crate or a concurrent modification.")
  else
    let (hnsw_id,index) := hnsw.insert embedding inner.index
    .ok {
      index := index
      index_to_fact := inner.index_to_fact ++ [fact_id]
      fact_to_hnsw := Function.update inner.fact_to_hnsw fact_id (some hnsw_id)
      tombstones := (inner.fact_to_hnsw fact_id).toList ++ inner.tombstones }

def notify_expire (inner : HnswInner hnsw) (fact_id : FactId) : HnswInner hnsw :=
  match inner.fact_to_hnsw fact_id with
  | some hnsw_id => { inner with
      fact_to_hnsw := Function.update inner.fact_to_hnsw fact_id none
      tombstones := hnsw_id :: inner.tombstones }
  | none => inner

/-- A search can come upon the fact. -/
def Live (inner : HnswInner hnsw) (fact_id : FactId) : Prop :=
  ∃ i : Nat, inner.index_to_fact[i]? = some fact_id ∧ i ∉ inner.tombstones

def slots (inner : HnswInner hnsw) : Slots FactId := ⟨inner.index_to_fact,inner.fact_to_hnsw,inner.tombstones⟩

/-- What the index means: the vector it holds for each fact. -/
def vector (inner : HnswInner hnsw) (fact_id : FactId) : Option Embedding := inner.slots.read (hnsw.feature inner.index) fact_id

/-- The numbering of the graph is that of the slots, and every slot has a vector. -/
structure Sound (inner : HnswInner hnsw) : Prop where
  slots : inner.slots.Sound
  len : hnsw.len inner.index = inner.index_to_fact.length
  filled : ∀ i < inner.index_to_fact.length, (hnsw.feature inner.index i).isSome

theorem sound_new (sequential : hnsw.Sequential) : (new_hnsw_index hnsw).Sound :=
  ⟨Slots.sound_empty,sequential.empty,fun _ low => absurd low (Nat.not_lt_zero _)⟩

variable {inner : HnswInner hnsw}

/-- The facts a search can come upon are those that have a vector. -/
theorem Sound.live_iff (sound : inner.Sound) {fact_id : FactId} : inner.Live fact_id ↔ ∃ v, inner.vector fact_id = some v := by
  constructor
  · rintro ⟨i,there,visible⟩
    have inside : i < inner.index_to_fact.length := (List.getElem?_eq_some_iff.mp there).1
    obtain ⟨v,held⟩ := Option.isSome_iff_exists.mp (sound.filled i inside)
    exact ⟨v,(sound.slots.read_eq _ there visible).trans held⟩
  · rintro ⟨v,held⟩
    obtain ⟨i,used,_⟩ := Option.bind_eq_some_iff.mp held
    exact ⟨i,(sound.slots.current fact_id i).mp used⟩

/-- Every slot that a search can come upon holds the vector of its fact. -/
theorem Sound.visible (sound : inner.Sound) {fact_id : FactId} {i : Nat} (there : inner.index_to_fact[i]? = some fact_id)
    (visible : i ∉ inner.tombstones) : hnsw.feature inner.index i = inner.vector fact_id :=
  (sound.slots.read_eq _ there visible).symm

/-- One more vector in the graph, under the next slot. -/
theorem sound_grown (sequential : hnsw.Sequential) (sound : inner.Sound) {inner' : HnswInner hnsw} {fact_id : FactId} {v : Embedding}
    (index : inner'.index = (hnsw.insert v inner.index).2) (slots : inner'.slots = inner.slots.push fact_id) :
    inner'.Sound ∧ inner'.vector = Function.update inner.vector fact_id (some v) := by
  have keys : inner'.index_to_fact = inner.index_to_fact ++ [fact_id] := congrArg Slots.keys slots
  have stored : hnsw.feature inner'.index inner.index_to_fact.length = some v := by
    rw [index,← sound.len]
    exact sequential.stored v inner.index
  have kept : ∀ i < inner.index_to_fact.length, hnsw.feature inner'.index i = hnsw.feature inner.index i := by
    rw [index,← sound.len]
    exact sequential.kept v inner.index
  refine ⟨⟨?_,?_,fun i inside => ?_⟩,?_⟩
  · rw [slots]
    exact Slots.sound_push sound.slots fact_id
  · rw [index,sequential.grown,sound.len,keys,List.length_append,List.length_singleton]
  · rw [keys,List.length_append,List.length_singleton] at inside
    rcases Nat.lt_succ_iff_lt_or_eq.mp inside with old | rfl
    · rw [kept i old]
      exact sound.filled i old
    · rw [stored]
      rfl
  · unfold vector
    rw [slots]
    exact Slots.read_push sound.slots stored kept

theorem sound_notify_insert (sequential : hnsw.Sequential) (sound : inner.Sound) (fact_id : FactId) (v : Embedding) :
    ∃ inner', inner.notify_insert fact_id v = .ok inner' ∧ inner'.Sound ∧ inner'.vector = Function.update inner.vector fact_id (some v) := by
  refine ⟨_,if_neg (not_not.mpr sound.len),sound_grown sequential sound rfl ?_⟩
  have number : (hnsw.insert v inner.index).1 = inner.index_to_fact.length := (sequential.number v inner.index).trans sound.len
  simp only [slots,Slots.push,number]

theorem slots_notify_expire (inner : HnswInner hnsw) (fact_id : FactId) : (inner.notify_expire fact_id).slots = inner.slots.bury fact_id ∧
    (inner.notify_expire fact_id).index = inner.index := by
  unfold notify_expire
  cases used : inner.fact_to_hnsw fact_id with
  | none =>
    rw [Slots.bury_unused (s := inner.slots) used]
    exact ⟨rfl,rfl⟩
  | some i =>
    rw [Slots.bury_used (s := inner.slots) used]
    exact ⟨rfl,rfl⟩

theorem sound_notify_expire (sound : inner.Sound) (fact_id : FactId) :
    (inner.notify_expire fact_id).Sound ∧ (inner.notify_expire fact_id).vector = Function.update inner.vector fact_id none := by
  obtain ⟨slots,index⟩ := slots_notify_expire inner fact_id
  have keys : (inner.notify_expire fact_id).index_to_fact = inner.index_to_fact := by
    have same := congrArg Slots.keys slots
    cases used : inner.fact_to_hnsw fact_id with
    | none => rwa [Slots.bury_unused used] at same
    | some i => rwa [Slots.bury_used used] at same
  refine ⟨⟨?_,?_,?_⟩,?_⟩
  · rw [slots]
    exact Slots.sound_bury sound.slots fact_id
  · rw [index,keys]
    exact sound.len
  · rw [index,keys]
    exact sound.filled
  · unfold vector
    rw [slots,index]
    exact Slots.read_bury _ _ _

/-- The entry of a row that is not in the index yet. -/
theorem sound_insertEntry (sequential : hnsw.Sequential) (sound : inner.Sound) {embed_dim : Nat} {f : Fact} (sized : f.embedding.length = embed_dim)
    (unused : inner.fact_to_hnsw f.id = none) : ∃ inner', insertEntry embed_dim inner (f.id,f.embedding) = .ok inner' ∧ inner'.Sound ∧
      inner'.vector = Function.update inner.vector f.id (some f.embedding) ∧
        inner'.fact_to_hnsw = Function.update inner.fact_to_hnsw f.id (some inner.index_to_fact.length) := by
  have number : (hnsw.insert f.embedding inner.index).1 = inner.index_to_fact.length := (sequential.number _ _).trans sound.len
  refine ⟨_,(if_neg (not_not.mpr sized)).trans (if_neg (not_not.mpr number)),?_⟩
  let inner' : HnswInner hnsw := ⟨(hnsw.insert f.embedding inner.index).2,inner.index_to_fact ++ [f.id],
    Function.update inner.fact_to_hnsw f.id (some (hnsw.insert f.embedding inner.index).1),inner.tombstones⟩
  have pushed : inner'.slots = inner.slots.push f.id := by
    simp only [inner',slots,Slots.push,number,unused,Option.toList_none,List.nil_append]
  have grown : inner'.Sound ∧ inner'.vector = Function.update inner.vector f.id (some f.embedding) :=
    sound_grown sequential sound rfl pushed
  refine ⟨grown.1,grown.2,?_⟩
  rw [number]

/-- A build over rows with keys of their own. -/
theorem sound_rows (sequential : hnsw.Sequential) {embed_dim : Nat} {rows : List Fact} (sound : inner.Sound)
    (distinct : (rows.map Fact.id).Nodup) (unused : ∀ f ∈ rows, inner.fact_to_hnsw f.id = none)
    (sized : ∀ f ∈ rows, f.embedding.length = embed_dim) : ∃ inner', rows.foldlM (fun inner f => do
      insertEntry embed_dim inner (f.id,← deserialize_embedding embed_dim f)) inner = .ok inner' ∧ inner'.Sound ∧
        ∀ id v, inner'.vector id = some v ↔ inner.vector id = some v ∨ ∃ f ∈ rows, f.id = id ∧ f.embedding = v := by
  induction rows generalizing inner with
  | nil => exact ⟨inner,rfl,sound,fun id v => by simp⟩
  | cons f rest ih =>
    obtain ⟨apart,distinct⟩ := List.nodup_cons.mp distinct
    obtain ⟨free,others⟩ := List.forall_mem_cons.mp unused
    obtain ⟨wide,widths⟩ := List.forall_mem_cons.mp sized
    obtain ⟨next,entered,sound',vectors,places⟩ := sound_insertEntry sequential sound wide free
    have away : ∀ g ∈ rest, g.id ≠ f.id := fun g member same => apart (same ▸ List.mem_map_of_mem member)
    have unused' : ∀ g ∈ rest, next.fact_to_hnsw g.id = none := by
      intro g member
      rw [places,Function.update_of_ne (away g member)]
      exact others g member
    obtain ⟨last,built,sound'',meaning⟩ := ih sound' distinct unused' widths
    refine ⟨last,?_,sound'',fun id v => ?_⟩
    · have decoded : deserialize_embedding embed_dim f = .ok f.embedding := if_pos wide
      rw [List.foldlM_cons,decoded]
      change (insertEntry embed_dim inner (f.id,f.embedding) >>= _) = _
      rw [entered]
      exact built
    · rw [meaning,vectors]
      have absent : inner.vector f.id = none := by
        unfold vector Slots.read
        rw [show inner.slots.current f.id = none from free]
        rfl
      by_cases same : id = f.id
      · subst same
        simp [absent]
      · simp [Function.update_of_ne same,Ne.symm same]

/-- An index built from the database holds the active facts with their vectors. -/
theorem sound_build_inner (sequential : hnsw.Sequential) {t : Tables} {embed_dim : Nat}
    (sized : ∀ f ∈ t.activeFacts, f.embedding.length = embed_dim) : ∃ inner, build_inner hnsw t embed_dim = .ok inner ∧ inner.Sound ∧
      ∀ id v, inner.vector id = some v ↔ ∃ f ∈ t.activeFacts, f.id = id ∧ f.embedding = v := by
  have distinct : (t.activeFacts.map Fact.id).Nodup := List.Nodup.sublist (List.filter_sublist.map _) t.facts.keys_nodup
  obtain ⟨inner,built,sound,meaning⟩ := sound_rows sequential (sound_new sequential) distinct (fun _ _ => rfl) sized
  refine ⟨inner,built,sound,fun id v => ?_⟩
  rw [meaning]
  exact or_iff_right fun held => by cases held

/-- The rows are the entries of the build. -/
theorem build_inner_eq (t : Tables) (embed_dim : Nat) : build_inner hnsw t embed_dim =
    build_hnsw_inner hnsw (t.activeFacts.map fun f => (deserialize_embedding embed_dim f).map fun v => (f.id,v)) embed_dim := by
  unfold build_inner build_hnsw_inner
  rw [List.foldlM_map]
  congr 1
  funext inner f
  cases deserialize_embedding embed_dim f <;> rfl

/-- A build that ends met no row of another width. -/
theorem sized_of_build {t : Tables} {embed_dim : Nat} {inner : HnswInner hnsw} (built : build_inner hnsw t embed_dim = .ok inner) :
    ∀ f ∈ t.activeFacts, f.embedding.length = embed_dim := by
  unfold build_inner at built
  generalize new_hnsw_index hnsw = first at built
  generalize t.activeFacts = rows at built ⊢
  induction rows generalizing first with
  | nil => exact fun _ member => absurd member List.not_mem_nil
  | cons f rest ih =>
    rw [List.foldlM_cons] at built
    by_cases wide : f.embedding.length = embed_dim
    · have decoded : deserialize_embedding embed_dim f = .ok f.embedding := if_pos wide
      rw [decoded] at built
      change (insertEntry embed_dim first (f.id,f.embedding) >>= _) = _ at built
      cases entered : insertEntry embed_dim first (f.id,f.embedding) with
      | error e =>
        rw [entered] at built
        cases built
      | ok next =>
        rw [entered] at built
        exact List.forall_mem_cons.mpr ⟨wide,ih next built⟩
    · have failed : deserialize_embedding embed_dim f = .error (.EmbeddingDimension embed_dim f.embedding.length) := if_neg wide
      rw [failed] at built
      cases built

end HnswInner
end MemoryEngine
