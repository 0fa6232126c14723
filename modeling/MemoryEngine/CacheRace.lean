import MemoryEngine.Mirror

/-! Two writers of a store with a cache. A writer commits an edit to the store and
later brings the cache up to date: it patches the cache with its own edit, or
it reads the store and then replaces the cache by what it read. The words below
record which commits the store and the cache reflect and in which order. -/

namespace MemoryEngine.CacheRace
open Mirror

universe u

inductive Kind where
  | commit
  | patch
  | read
  | replace
deriving DecidableEq

/-- One of the two writers. -/
abbrev Side := Bool

/-- A step of one writer. -/
abbrev Event := Side × Kind

/-- The commits that the store, the cache and the copy of each writer reflect. -/
structure Words where
  stored : List Side := []
  cached : List Side := []
  copied : Side → List Side := fun _ => []

namespace Words

def step (w : Words) : Event → Words
  | (i,.commit) => { w with stored := w.stored ++ [i] }
  | (i,.patch) => { w with cached := w.cached ++ [i] }
  | (i,.read) => { w with copied := Function.update w.copied i w.stored }
  | (i,.replace) => { w with cached := w.copied i }

def of (history : List Event) : Words := history.foldl step {}

theorem of_append (history : List Event) (event : Event) : of (history ++ [event]) = (of history).step event := by
  simp [of]

end Words

/-- The steps of one writer from its commit to its end: a patch, a reload, or
    nothing to bring up to date. -/
inductive Program where
  | patches
  | reloads
  | nothing
deriving DecidableEq

def Program.kinds : Program → List Kind
  | .patches => [.commit,.patch]
  | .reloads => [.commit,.read,.replace]
  | .nothing => []

/-- Steps of one writer in a history. -/
def steps (i : Side) (history : List Event) : List Kind := (history.filter (fun event => event.1 == i)).map Prod.snd

theorem steps_append (i : Side) (history : List Event) (event : Event) :
    steps i (history ++ [event]) = if event.1 = i then steps i history ++ [event.2] else steps i history := by
  by_cases own : event.1 = i
  · simp [steps,own]
  · simp [steps,own]

/-- The ways to cut a list in two. -/
def cuts {α : Type} : List α → List (List α × List α)
  | [] => [([],[])]
  | y :: ys => ([],y :: ys) :: (cuts ys).map (fun cut => (y :: cut.1,cut.2))

/-- The interleavings of the steps of the first and the second writer. -/
def interleavings : List Kind → List Kind → List (List Event)
  | [],q => [q.map (fun k => (true,k))]
  | k :: p,q => (cuts q).flatMap (fun cut => (interleavings p cut.2).map
      (fun rest => cut.1.map (fun k => (true,k)) ++ (false,k) :: rest))

/-- A history is an interleaving of what each writer does in it. -/
theorem mem_interleavings (history : List Event) :
    history ∈ interleavings (steps false history) (steps true history) := by
  induction history with
  | nil => simp [steps,interleavings]
  | cons event rest ih =>
    obtain ⟨side,kind⟩ := event
    cases side with
    | false =>
      have own : steps false ((false,kind) :: rest) = kind :: steps false rest := by simp [steps]
      have other : steps true ((false,kind) :: rest) = steps true rest := by simp [steps]
      rw [own,other,interleavings,List.mem_flatMap]
      refine ⟨([],steps true rest),?_,List.mem_map.mpr ⟨rest,ih,rfl⟩⟩
      cases steps true rest <;> simp [cuts]
    | true =>
      have own : steps true ((true,kind) :: rest) = kind :: steps true rest := by simp [steps]
      have other : steps false ((true,kind) :: rest) = steps false rest := by simp [steps]
      rw [own,other]
      cases shape : steps false rest with
      | nil =>
        rw [shape] at ih
        simp only [interleavings,List.mem_singleton] at ih ⊢
        rw [List.map_cons,← ih]
      | cons k p =>
        rw [shape,interleavings,List.mem_flatMap] at ih
        obtain ⟨cut,chosen,tail⟩ := ih
        obtain ⟨after,member,rfl⟩ := List.mem_map.mp tail
        rw [interleavings,List.mem_flatMap]
        refine ⟨(kind :: cut.1,cut.2),?_,List.mem_map.mpr ⟨after,member,rfl⟩⟩
        rw [cuts]
        exact List.mem_cons_of_mem _ (List.mem_map.mpr ⟨cut,chosen,rfl⟩)

section outcomes
variable (history : List Event) (i : Side)

/-- The cache reflects the commits of the store, in their order. -/
def InOrder : Prop := (Words.of history).cached = (Words.of history).stored

/-- Writer `i` committed first and patched last. -/
def Crossed : Prop := (Words.of history).stored = [i,!i] ∧ (Words.of history).cached = [!i,i]

/-- Writer `i` patched after a replacement by a copy that had its commit already. -/
def Repeated : Prop := (!i,Kind.read) ∈ history ∧ (Words.of history).copied (!i) = (Words.of history).stored ∧
  (Words.of history).cached = (Words.of history).stored ++ [i]

/-- Writer `i` ended before a replacement by a copy that did not have its commit. -/
def Lost : Prop := (!i,Kind.read) ∈ history ∧ (Words.of history).copied (!i) = (Words.of history).cached ∧
  (Words.of history).stored = (Words.of history).cached ++ [i]

instance : Decidable (InOrder history) := inferInstanceAs (Decidable (_ = _))
instance : Decidable (Crossed history i) := inferInstanceAs (Decidable (_ ∧ _))
instance : Decidable (Repeated history i) := inferInstanceAs (Decidable (_ ∧ _ ∧ _))
instance : Decidable (Lost history i) := inferInstanceAs (Decidable (_ ∧ _ ∧ _))

end outcomes

/-- Every way two writers can interleave ends in one of four outcomes. -/
theorem outcome {history : List Event} {p q : Program} (first : steps false history = p.kinds)
    (second : steps true history = q.kinds) :
    InOrder history ∨ (∃ i, Crossed history i) ∨ (∃ i, Repeated history i) ∨ ∃ i, Lost history i := by
  have all : ∀ p ∈ [Program.patches,.reloads,.nothing], ∀ q ∈ [Program.patches,.reloads,.nothing],
      ∀ history ∈ interleavings p.kinds q.kinds,
        InOrder history ∨ (∃ i, Crossed history i) ∨ (∃ i, Repeated history i) ∨ ∃ i, Lost history i := by
    decide +kernel
  have member := mem_interleavings history
  rw [first,second] at member
  exact all p (by cases p <;> simp) q (by cases q <;> simp) history member

/-- While a writer has its patch ahead of it, the cache reflects no commit twice. -/
theorem cached_nodup {history : List Event} {i : Side} {p : Program} {n : Nat} (pending : steps i history = [.commit])
    (other : steps (!i) history = p.kinds.take n) : (Words.of history).cached.Nodup := by
  have all : ∀ p ∈ [Program.patches,.reloads,.nothing], ∀ n ∈ [0,1,2,3],
      (∀ history ∈ interleavings [.commit] (p.kinds.take n), (Words.of history).cached.Nodup) ∧
        ∀ history ∈ interleavings (p.kinds.take n) [.commit], (Words.of history).cached.Nodup := by
    decide +kernel
  have known : p ∈ [Program.patches,.reloads,.nothing] := by cases p <;> simp
  have bounded : p.kinds.take (min n 3) = p.kinds.take n := by
    have short : p.kinds.length ≤ 3 := by cases p <;> decide
    rcases Nat.le_total n 3 with small | large
    · rw [Nat.min_eq_left small]
    · rw [Nat.min_eq_right large,List.take_of_length_le short,List.take_of_length_le (short.trans large)]
  have counted : min n 3 ∈ [0,1,2,3] := by
    simp only [List.mem_cons,List.not_mem_nil,or_false]
    omega
  have both := all p known (min n 3) counted
  rw [bounded] at both
  have member := mem_interleavings history
  cases i with
  | false =>
    rw [pending,show steps true history = _ from other] at member
    exact both.1 history member
  | true =>
    rw [pending,show steps false history = _ from other] at member
    exact both.2 history member

section multisets
variable {α : Type u} (edits : Side → Edit α) (start : Multiset α)

/-- The contents that reflect a word of commits. -/
def contents (word : List Side) : Multiset α := replay (word.map edits) start

@[simp] theorem contents_nil : contents edits start [] = start := rfl

theorem contents_append (word : List Side) (i : Side) :
    contents edits start (word ++ [i]) = (edits i).apply (contents edits start word) := by
  rw [contents,List.map_append,replay_append]
  rfl

/-- Contents stay within the start and the additions of both writers, when no
    commit counts twice. -/
theorem contents_le {word : List Side} (once : word.Nodup) :
    contents edits start word ≤ start + ((edits false).add + (edits true).add) := by
  have total : added (word.map edits) ≤ (edits false).add + (edits true).add := by
    rcases word with - | ⟨a,- | ⟨b,- | ⟨c,rest⟩⟩⟩
    · exact Multiset.zero_le _
    · cases a <;> simp [added,Multiset.zero_le]
    · cases a <;> cases b <;> simp [added,add_comm] at once ⊢
    · cases a <;> cases b <;> cases c <;> simp at once
  exact (replay_le _ start).trans (Multiset.add_le_add_left total)

/-- What makes the deviations of the cache harmless: crossed patches are apart, and
    a repeated or lost edit changes nothing in the copy it met. -/
structure Harmless (history : List Event) : Prop where
  crossed : ∀ i, Crossed history i → Edit.Apart (edits i) (edits (!i))
  repeated : ∀ i, Repeated history i → (edits i).apply (contents edits start ((Words.of history).copied (!i))) =
    contents edits start ((Words.of history).copied (!i))
  lost : ∀ i, Lost history i → (edits i).apply (contents edits start ((Words.of history).copied (!i))) =
    contents edits start ((Words.of history).copied (!i))

variable {edits start}

/-- The cache ends equal to the store exactly when its deviations are harmless. -/
theorem cached_eq_stored_iff {history : List Event} {p q : Program} (first : steps false history = p.kinds)
    (second : steps true history = q.kinds) (disjoint : ∀ i, ∀ x ∈ (edits i).add, x ∉ (edits (!i)).add) :
    contents edits start (Words.of history).cached = contents edits start (Words.of history).stored ↔
      Harmless edits start history := by
  constructor
  · intro equal
    refine ⟨?_,?_,?_⟩
    · rintro i ⟨stored,cached⟩
      rw [stored,cached] at equal
      exact (Edit.apply_comm_iff (edits i) (edits (!i)) (disjoint i) start).mp equal.symm
    · rintro i ⟨_,stored,cached⟩
      rw [cached,contents_append] at equal
      rw [stored,equal]
    · rintro i ⟨_,cached,stored⟩
      rw [stored,contents_append] at equal
      rw [cached,← equal]
  · intro harmless
    rcases outcome first second with same | ⟨i,crossed⟩ | ⟨i,repeated⟩ | ⟨i,lost⟩
    · rw [same]
    · have apart := harmless.crossed i crossed
      rw [crossed.1,crossed.2]
      exact ((Edit.apply_comm_iff (edits i) (edits (!i)) (disjoint i) start).mpr apart).symm
    · have same := harmless.repeated i repeated
      rw [repeated.2.1] at same
      rw [repeated.2.2,contents_append,same]
    · have same := harmless.lost i lost
      rw [lost.2.1] at same
      rw [lost.2.2,contents_append,same]

end multisets
end MemoryEngine.CacheRace
