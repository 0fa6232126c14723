import MemoryEngine.IndexSearch

/-! The three structures of the vector index over any sequence of builds and notices. A build
does not look whether a fact has a slot already, so it needs entries with distinct facts. -/

namespace MemoryEngine
open SlotLog Search

/-- Numbers are handed out in order. -/
structure Hnsw.Numbered (hnsw : Hnsw) : Prop where
  empty : hnsw.len hnsw.new = 0
  number : ∀ v g, (hnsw.insert v g).1 = hnsw.len g
  grown : ∀ v g, hnsw.len (hnsw.insert v g).2 = hnsw.len g + 1

inductive IndexCall where
  | build (entries : List (Except MemoryError (FactId × Embedding)))
  | notify_insert (fact_id : FactId) (embedding : Embedding)
  | notify_expire (fact_id : FactId)

/-- The entries of a build that none of its checks refuses name no fact twice. -/
def IndexCall.Distinct (embed_dim : Nat) : IndexCall → Prop
  | .build entries => ∀ given : List (FactId × Embedding), entries = given.map .ok → (∀ entry ∈ given, entry.2.length = embed_dim) → (given.map Prod.fst).Nodup
  | _ => True

namespace HnswInner
variable {hnsw : Hnsw} {embed_dim : Nat}

/-- A call that fails leaves the index as it was. -/
def call (embed_dim : Nat) (inner : HnswInner hnsw) : IndexCall → HnswInner hnsw
  | .build entries => match build_hnsw_inner hnsw entries embed_dim with
    | .ok built => built
    | .error _ => inner
  | .notify_insert fact_id embedding => match inner.notify_insert fact_id embedding with
    | .ok grown => grown
    | .error _ => inner
  | .notify_expire fact_id => inner.notify_expire fact_id

/-- The graph and the list of facts have one length, a fact is mapped to a slot of its own that
    is in use, every slot is out of use or has exactly one fact mapped to it, and a search
    proposes no fact twice. -/
structure Exact (inner : HnswInner hnsw) : Prop where
  len : hnsw.len inner.index = inner.index_to_fact.length
  mapped : ∀ fact_id i, inner.fact_to_hnsw fact_id = some i → inner.index_to_fact[i]? = some fact_id ∧ i ∉ inner.tombstones
  settled : ∀ i < inner.index_to_fact.length, i ∈ inner.tombstones ∨ ∃! fact_id, inner.fact_to_hnsw fact_id = some i
  once : ∀ neighbors : List Nat, neighbors.Nodup → (inner.candidates neighbors).Nodup

structure Kept (inner : HnswInner hnsw) : Prop where
  slots : inner.slots.Sound
  len : hnsw.len inner.index = inner.index_to_fact.length

theorem Exact.slots {inner : HnswInner hnsw} (exact_ : inner.Exact) : inner.slots.Exact := ⟨exact_.mapped,exact_.settled⟩

theorem Kept.exact {inner : HnswInner hnsw} (kept : inner.Kept) : inner.Exact := by
  refine ⟨kept.len,kept.slots.exact.mapped,kept.slots.exact.settled,fun neighbors distinct => ?_⟩
  refine List.Nodup.filterMap (fun i j id first second => ?_) distinct
  have left := visible_eq_some.mp first
  have right := visible_eq_some.mp second
  exact kept.slots.exact.apart left.1 right.1 left.2 right.2

theorem kept_new (numbered : hnsw.Numbered) : (new_hnsw_index hnsw).Kept := ⟨Slots.sound_empty,numbered.empty⟩

theorem Kept.notify_insert (numbered : hnsw.Numbered) {inner : HnswInner hnsw} (kept : inner.Kept) (fact_id : FactId) (embedding : Embedding) :
    ∃ grown, inner.notify_insert fact_id embedding = .ok grown ∧ grown.Kept := by
  refine ⟨_,if_neg (not_not.mpr kept.len),?_,?_⟩
  · have number := (numbered.number embedding inner.index).trans kept.len
    have pushed := Slots.sound_push kept.slots fact_id
    simp only [HnswInner.slots,number]
    exact pushed
  · rw [List.length_append,List.length_singleton,← kept.len]
    exact numbered.grown embedding inner.index

theorem Kept.notify_expire {inner : HnswInner hnsw} (kept : inner.Kept) (fact_id : FactId) : (inner.notify_expire fact_id).Kept := by
  obtain ⟨slots,index⟩ := slots_notify_expire inner fact_id
  refine ⟨?_,?_⟩
  · rw [slots]
    exact Slots.sound_bury kept.slots fact_id
  · rw [index,kept.len]
    have same : (inner.notify_expire fact_id).index_to_fact = inner.index_to_fact := by
      unfold HnswInner.notify_expire
      split <;> rfl
    rw [same]

theorem insertEntry_ok (numbered : hnsw.Numbered) {inner inner' : HnswInner hnsw} {entry : FactId × Embedding}
    (len : hnsw.len inner.index = inner.index_to_fact.length) : insertEntry embed_dim inner entry = .ok inner' ↔
      entry.2.length = embed_dim ∧ inner' = ⟨(hnsw.insert entry.2 inner.index).2,inner.index_to_fact ++ [entry.1],
        Function.update inner.fact_to_hnsw entry.1 (some inner.index_to_fact.length),inner.tombstones⟩ := by
  have number := (numbered.number entry.2 inner.index).trans len
  unfold insertEntry
  by_cases wide : entry.2.length = embed_dim
  · rw [if_neg (not_not.mpr wide)]
    simp only [number,ne_eq,not_true,if_false,Except.ok.injEq,wide,true_and]
    exact eq_comm
  · rw [if_pos wide]
    simp [wide]

/-- A build goes through exactly when every entry is given and has the width, and it places
    the facts one after the other. -/
theorem insertEntries_ok (numbered : hnsw.Numbered) {entries : List (Except MemoryError (FactId × Embedding))} {inner inner' : HnswInner hnsw}
    (len : hnsw.len inner.index = inner.index_to_fact.length)
    (built : entries.foldlM (fun inner entry => do insertEntry embed_dim inner (← entry)) inner = .ok inner') :
    ∃ given : List (FactId × Embedding), entries = given.map .ok ∧ (∀ entry ∈ given, entry.2.length = embed_dim) ∧
      inner'.slots = (given.map Prod.fst).foldl Slots.place inner.slots ∧ hnsw.len inner'.index = inner'.index_to_fact.length := by
  induction entries generalizing inner with
  | nil =>
    cases built
    exact ⟨[],rfl,by simp,rfl,len⟩
  | cons first rest ih =>
    rw [List.foldlM_cons] at built
    cases first with
    | error e => cases built
    | ok entry =>
      cases entered : insertEntry embed_dim inner entry with
      | error e =>
        have failed : (insertEntry embed_dim inner entry >>= fun next =>
            rest.foldlM (fun inner entry => do insertEntry embed_dim inner (← entry)) next) = .ok inner' := built
        rw [entered] at failed
        cases failed
      | ok next =>
        have later : (insertEntry embed_dim inner entry >>= fun next =>
            rest.foldlM (fun inner entry => do insertEntry embed_dim inner (← entry)) next) = .ok inner' := built
        rw [entered] at later
        obtain ⟨wide,rfl⟩ := (insertEntry_ok numbered len).mp entered
        have longer : hnsw.len (hnsw.insert entry.2 inner.index).2 = (inner.index_to_fact ++ [entry.1]).length := by
          rw [numbered.grown,len,List.length_append,List.length_singleton]
        obtain ⟨given,rfl,widths,places,len'⟩ := ih longer later
        refine ⟨entry :: given,rfl,?_,places,len'⟩
        exact List.forall_mem_cons.mpr ⟨wide,widths⟩

theorem insertEntries_total (numbered : hnsw.Numbered) {given : List (FactId × Embedding)} (sized : ∀ entry ∈ given, entry.2.length = embed_dim)
    {inner : HnswInner hnsw} (len : hnsw.len inner.index = inner.index_to_fact.length) :
    ∃ inner', (given.map Except.ok).foldlM (fun inner entry => do insertEntry embed_dim inner (← entry)) inner = .ok inner' := by
  induction given generalizing inner with
  | nil => exact ⟨inner,rfl⟩
  | cons entry rest ih =>
    obtain ⟨wide,sized⟩ := List.forall_mem_cons.mp sized
    let next : HnswInner hnsw := ⟨(hnsw.insert entry.2 inner.index).2,inner.index_to_fact ++ [entry.1],
      Function.update inner.fact_to_hnsw entry.1 (some inner.index_to_fact.length),inner.tombstones⟩
    have entered : insertEntry embed_dim inner entry = .ok next := (insertEntry_ok numbered len).mpr ⟨wide,rfl⟩
    have longer : hnsw.len next.index = next.index_to_fact.length := by
      rw [numbered.grown,len,List.length_append,List.length_singleton]
    obtain ⟨inner',built⟩ := ih sized longer
    refine ⟨inner',?_⟩
    rw [List.map_cons,List.foldlM_cons]
    change (insertEntry embed_dim inner entry >>= _) = _
    rw [entered]
    exact built

/-- A build over facts that are all different ends with an index as the notices keep it. -/
theorem Kept.call (numbered : hnsw.Numbered) {inner : HnswInner hnsw} (kept : inner.Kept) {c : IndexCall} (distinct : c.Distinct embed_dim) :
    (inner.call embed_dim c).Kept := by
  cases c with
  | build entries =>
    unfold HnswInner.call
    simp only []
    cases built : build_hnsw_inner hnsw entries embed_dim with
    | error _ => exact kept
    | ok inner' =>
      obtain ⟨given,rfl,sized,places,len⟩ := insertEntries_ok numbered (kept_new numbered).len built
      refine ⟨?_,len⟩
      rw [places]
      exact Slots.sound_places Slots.sound_empty (distinct given rfl sized) fun _ _ => rfl
  | notify_insert fact_id embedding =>
    obtain ⟨grown,inserted,kept'⟩ := kept.notify_insert numbered fact_id embedding
    unfold HnswInner.call
    simp only [inserted]
    exact kept'
  | notify_expire fact_id => exact kept.notify_expire fact_id

/-- A build over a fact that comes twice leaves both of its slots in use. -/
theorem not_exact_build (numbered : hnsw.Numbered) {inner : HnswInner hnsw} {entries : List (Except MemoryError (FactId × Embedding))}
    (repeated : ¬ (IndexCall.build entries).Distinct embed_dim) : ¬ (inner.call embed_dim (.build entries)).Exact := by
  unfold IndexCall.Distinct at repeated
  push Not at repeated
  obtain ⟨given,rfl,sized,twice⟩ := repeated
  obtain ⟨built,ended⟩ := insertEntries_total numbered sized (kept_new numbered).len
  have called : inner.call embed_dim (.build (given.map .ok)) = built := by
    have whole : build_hnsw_inner hnsw (given.map .ok) embed_dim = .ok built := ended
    simp only [HnswInner.call,whole]
  obtain ⟨given',same,_,places,_⟩ := insertEntries_ok numbered (kept_new numbered).len ended
  have equal : given' = given := List.map_injective_iff.mpr (fun _ _ => Except.ok.inj) same.symm
  rw [called]
  intro exact_
  obtain ⟨keys,buried⟩ := Slots.keys_places (new_hnsw_index hnsw).slots (given.map Prod.fst)
  have distinct := exact_.slots.keys_nodup (by rw [places,equal,buried]; rfl)
  rw [places,equal,keys] at distinct
  exact twice distinct

/-- The rows of the database name every fact once. -/
theorem distinct_rows (t : Tables) (embed_dim : Nat) :
    (IndexCall.build (t.activeFacts.map fun f => (deserialize_embedding embed_dim f).map fun v => (f.id,v))).Distinct embed_dim := by
  have ids : ∀ (rows : List Fact) (given : List (FactId × Embedding)),
      rows.map (fun f => (deserialize_embedding embed_dim f).map fun v => (f.id,v)) = given.map .ok →
        given.map Prod.fst = rows.map Fact.id := by
    intro rows
    induction rows with
    | nil =>
      intro given same
      rw [List.map_eq_nil_iff.mp same.symm]
      rfl
    | cons f rest ih =>
      intro given same
      obtain ⟨entry,others,rfl,first,later⟩ := List.map_eq_cons_iff.mp same.symm
      rw [List.map_cons,List.map_cons,ih others later.symm]
      have here : Except.ok entry = (deserialize_embedding embed_dim f).map fun v => (f.id,v) := first
      cases decoded : deserialize_embedding embed_dim f with
      | error _ =>
        rw [decoded] at here
        cases here
      | ok v =>
        rw [decoded] at here
        rw [Except.ok.inj here]
  intro given same _
  rw [ids _ given same]
  exact List.Nodup.sublist (List.filter_sublist.map _) t.facts.keys_nodup

/-- In every state of a run of builds and notices the three structures agree, exactly when no
    build was given a fact twice. -/
theorem slots_exact_iff (numbered : hnsw.Numbered) (embed_dim : Nat) (calls : List IndexCall) :
    (∀ done rest, calls = done ++ rest → (done.foldl (HnswInner.call embed_dim) (new_hnsw_index hnsw)).Exact) ↔
      ∀ c ∈ calls, c.Distinct embed_dim := by
  constructor
  · intro always c member
    obtain ⟨before,after,split⟩ := List.append_of_mem member
    by_contra repeated
    have state := always (before ++ [c]) after (by rw [split]; simp)
    rw [List.foldl_append,List.foldl_cons,List.foldl_nil] at state
    cases c with
    | build entries => exact not_exact_build numbered repeated state
    | notify_insert => exact repeated trivial
    | notify_expire => exact repeated trivial
  · intro distinct done rest split
    have part : ∀ c ∈ done, c.Distinct embed_dim := fun c member => distinct c (split ▸ List.mem_append_left _ member)
    have kept : (done.foldl (HnswInner.call embed_dim) (new_hnsw_index hnsw)).Kept := by
      clear split
      induction done using List.reverseRecOn with
      | nil => exact kept_new numbered
      | append_singleton front last ih =>
        rw [List.foldl_append,List.foldl_cons,List.foldl_nil]
        have before := ih fun c member => part c (List.mem_append_left _ member)
        exact before.call numbered (part last (List.mem_append_right _ (List.mem_singleton_self last)))
    exact kept.exact

end HnswInner

namespace Sample

theorem numbered : hnsw.Numbered := ⟨rfl,fun _ _ => rfl,fun _ _ => List.length_append⟩

/-- A build, a fact that is inserted again and an expiry. -/
def slotCalls : List IndexCall := [.build [.ok (1,[0]),.ok (2,[1])],.notify_insert 1 [2],.notify_expire 2,.notify_expire 9]

end Sample

namespace HnswInner
open MemoryEngine.Sample

theorem slots_exact_sample : (Sample.slotCalls.foldl (HnswInner.call 1) (new_hnsw_index Sample.hnsw)).Exact := by
  refine (slots_exact_iff Sample.numbered 1 Sample.slotCalls).mpr (fun c member => ?_) Sample.slotCalls [] (List.append_nil _).symm
  simp only [Sample.slotCalls,List.mem_cons,List.not_mem_nil,or_false] at member
  rcases member with rfl | rfl | rfl | rfl
  · intro given same _
    have mapped : [(1,[0]),(2,[1])].map Except.ok = given.map Except.ok := same
    have equal : [(1,[0]),(2,[1])] = given := List.map_injective_iff.mpr (fun _ _ => Except.ok.inj) mapped
    rw [← equal]
    decide
  · trivial
  · trivial
  · trivial

/-- The entries of a snapshot name one fact twice; both slots stay in use. -/
theorem build_keeps_both_slots : ¬ ∀ (hnsw : Hnsw), hnsw.Numbered → ∀ (embed_dim : Nat) (calls : List IndexCall),
    (calls.foldl (HnswInner.call embed_dim) (new_hnsw_index hnsw)).Exact := by
  intro always
  have state := always Sample.hnsw Sample.numbered 1 [.build [.ok (1,[0]),.ok (1,[1])]]
  have one : (0 : Nat) = 1 := state.slots.apart (k := 1) rfl rfl (by decide) (by decide)
  exact absurd one (by decide)

end HnswInner
end MemoryEngine
