import Mathlib.Data.List.Nodup
import Mathlib.Logic.Function.Basic

/-! Slots that are only ever appended. A key can be given a slot again, and a key can be
dropped; either way its old slot is buried, and a reader passes over buried slots. What the
slots mean is a partial function from the keys to the items stored in them. -/

namespace MemoryEngine.SlotLog

universe u v

/-- The key of each slot, the slot in use for each key, and the slots out of use. -/
structure Slots (κ : Type u) where
  keys : List κ
  current : κ → Option Nat
  buried : List Nat

namespace Slots
variable {κ : Type u} {ν : Type v}

def empty : Slots κ := ⟨[],fun _ => none,[]⟩

/-- A reader that goes through the slots and passes over the buried ones comes to the slot
    in use for each key, and to no other. -/
structure Sound (s : Slots κ) : Prop where
  known : ∀ i ∈ s.buried, i < s.keys.length
  current : ∀ k i, s.current k = some i ↔ s.keys[i]? = some k ∧ i ∉ s.buried

/-- The item in the slot in use for a key. -/
def read (items : Nat → Option ν) (s : Slots κ) (k : κ) : Option ν := (s.current k).bind items

variable {s : Slots κ} {k : κ}

theorem Sound.inside (sound : s.Sound) {i : Nat} (used : s.current k = some i) : i < s.keys.length :=
  (List.getElem?_eq_some_iff.mp ((sound.current k i).mp used).1).1

/-- What a reader finds in a visible slot is what its key means. -/
theorem Sound.read_eq (sound : s.Sound) (items : Nat → Option ν) {i : Nat} (there : s.keys[i]? = some k) (visible : i ∉ s.buried) :
    read items s k = items i := by
  unfold read
  rw [(sound.current k i).mpr ⟨there,visible⟩]
  rfl

theorem sound_empty : (empty : Slots κ).Sound := by
  refine ⟨fun i member => absurd member List.not_mem_nil,fun k i => ?_⟩
  simp [empty]

section updates
variable [DecidableEq κ]

/-- Give the key the next slot. -/
def push (s : Slots κ) (k : κ) : Slots κ :=
  ⟨s.keys ++ [k],Function.update s.current k (some s.keys.length),(s.current k).toList ++ s.buried⟩

/-- Take the slot of the key out of use. -/
def bury (s : Slots κ) (k : κ) : Slots κ :=
  match s.current k with
  | some i => ⟨s.keys,Function.update s.current k none,i :: s.buried⟩
  | none => s

theorem bury_used {i : Nat} (used : s.current k = some i) : s.bury k = ⟨s.keys,Function.update s.current k none,i :: s.buried⟩ := by
  unfold bury
  rw [used]

theorem bury_unused (unused : s.current k = none) : s.bury k = s := by
  unfold bury
  rw [unused]

theorem sound_push (sound : s.Sound) (k : κ) : (s.push k).Sound := by
  have known : ∀ i ∈ (s.push k).buried, i < s.keys.length := by
    intro i member
    rcases List.mem_append.mp member with old | before
    · exact sound.inside (Option.mem_toList.mp old)
    · exact sound.known i before
  refine ⟨fun i member => ?_,fun other i => ?_⟩
  · rw [push,List.length_append,List.length_singleton]
    exact Nat.lt_succ_of_lt (known i member)
  · by_cases last : i = s.keys.length
    · subst last
      have fresh : s.keys.length ∉ (s.push k).buried := fun member => Nat.lt_irrefl _ (known _ member)
      have unused : s.current other ≠ some s.keys.length := fun used => Nat.lt_irrefl _ (sound.inside used)
      rw [and_iff_left fresh]
      by_cases same : other = k
      · simp [push,same]
      · simp [push,same,unused,Ne.symm same]
    · have slot : (s.push k).keys[i]? = some other ↔ s.keys[i]? = some other := by
        rcases Nat.lt_or_gt_of_ne last with low | high
        · rw [push,List.getElem?_append_left low]
        · have beyond : (s.push k).keys[i]? = none := List.getElem?_eq_none (by simp [push]; omega)
          rw [beyond,List.getElem?_eq_none (Nat.le_of_lt high)]
      rw [slot]
      by_cases same : other = k
      · subst same
        have moved : (s.push other).current other = some s.keys.length := by simp [push]
        rw [moved]
        constructor
        · intro equal
          exact absurd (Option.some.inj equal).symm last
        · rintro ⟨there,visible⟩
          -- the old slot of the key has just been buried
          have before : i ∉ s.buried := fun member => visible (List.mem_append_right _ member)
          have used := (sound.current other i).mpr ⟨there,before⟩
          exact absurd (List.mem_append_left _ (Option.mem_toList.mpr used)) visible
      · have kept : (s.push k).current other = s.current other := by simp [push,same]
        rw [kept,sound.current other i]
        refine and_congr_right fun there => not_congr ?_
        rw [push,List.mem_append]
        constructor
        · exact .inr
        · rintro (old | before)
          · have named := ((sound.current k i).mp (Option.mem_toList.mp old)).1
            rw [there] at named
            exact absurd (Option.some.inj named) same
          · exact before

theorem sound_bury (sound : s.Sound) (k : κ) : (s.bury k).Sound := by
  cases used : s.current k with
  | none => rwa [bury_unused used]
  | some i =>
    rw [bury_used used]
    have there := (sound.current k i).mp used
    refine ⟨?_,fun other j => ?_⟩
    · exact List.forall_mem_cons.mpr ⟨sound.inside used,sound.known⟩
    · dsimp only
      rw [List.mem_cons,not_or]
      by_cases same : other = k
      · subst same
        rw [Function.update_self]
        constructor
        · intro absent
          cases absent
        · rintro ⟨here,apart,visible⟩
          have again := (sound.current other j).mpr ⟨here,visible⟩
          rw [used] at again
          exact absurd (Option.some.inj again).symm apart
      · rw [Function.update_of_ne same,sound.current other j]
        constructor
        · rintro ⟨here,visible⟩
          refine ⟨here,fun equal => ?_,visible⟩
          rw [equal,there.1] at here
          exact same (Option.some.inj here).symm
        · rintro ⟨here,_,visible⟩
          exact ⟨here,visible⟩

/-- A new slot changes the meaning at its key only. -/
theorem read_push {items items' : Nat → Option ν} {v : ν} (sound : s.Sound) (stored : items' s.keys.length = some v)
    (kept : ∀ i < s.keys.length, items' i = items i) : read items' (s.push k) = Function.update (read items s) k (some v) := by
  funext other
  unfold read
  by_cases same : other = k
  · simp [push,same,stored]
  · have current : (s.push k).current other = s.current other := by simp [push,same]
    rw [current,Function.update_of_ne same]
    cases used : s.current other with
    | none => rfl
    | some i => exact kept i (sound.inside used)

theorem read_bury (items : Nat → Option ν) (s : Slots κ) (k : κ) : read items (s.bury k) = Function.update (read items s) k none := by
  funext other
  unfold read
  by_cases same : other = k
  · subst same
    cases used : s.current other with
    | none => simp [bury_unused used,used]
    | some i => simp [bury_used used]
  · rw [Function.update_of_ne same]
    cases used : s.current k with
    | none => rw [bury_unused used]
    | some i => simp [bury_used used,same]

/-- Give the key the next slot without a look at the one it may have. -/
def place (s : Slots κ) (k : κ) : Slots κ := ⟨s.keys ++ [k],Function.update s.current k (some s.keys.length),s.buried⟩

theorem place_eq_push (unused : s.current k = none) : s.place k = s.push k := by
  unfold place push
  rw [unused]
  rfl

theorem sound_places (sound : s.Sound) {keys : List κ} (distinct : keys.Nodup) (unused : ∀ k ∈ keys, s.current k = none) :
    (keys.foldl place s).Sound := by
  induction keys generalizing s with
  | nil => exact sound
  | cons k rest ih =>
    obtain ⟨apart,distinct⟩ := List.nodup_cons.mp distinct
    obtain ⟨free,others⟩ := List.forall_mem_cons.mp unused
    rw [List.foldl_cons,place_eq_push free]
    refine ih (sound_push sound k) distinct fun other member => ?_
    have away : other ≠ k := fun same => apart (same ▸ member)
    have kept : (s.push k).current other = s.current other := Function.update_of_ne away _ _
    rw [kept]
    exact others other member

theorem keys_places (s : Slots κ) (keys : List κ) :
    (keys.foldl place s).keys = s.keys ++ keys ∧ (keys.foldl place s).buried = s.buried := by
  induction keys generalizing s with
  | nil => simp
  | cons k rest ih =>
    obtain ⟨grown,same⟩ := ih (s.place k)
    rw [List.foldl_cons,grown,same]
    simp [place]

end updates

/-- A key has a slot of its own that is not buried, and every slot is buried or in use for one key. -/
structure Exact (s : Slots κ) : Prop where
  mapped : ∀ k i, s.current k = some i → s.keys[i]? = some k ∧ i ∉ s.buried
  settled : ∀ i < s.keys.length, i ∈ s.buried ∨ ∃! k, s.current k = some i

theorem Sound.exact (sound : s.Sound) : s.Exact := by
  refine ⟨fun k i used => (sound.current k i).mp used,fun i inside => ?_⟩
  by_cases buried : i ∈ s.buried
  · exact .inl buried
  · refine .inr ⟨s.keys[i],(sound.current _ i).mpr ⟨List.getElem?_eq_getElem inside,buried⟩,fun other used => ?_⟩
    have there := ((sound.current other i).mp used).1
    rw [List.getElem?_eq_getElem inside] at there
    exact (Option.some.inj there).symm

/-- Two slots that are not buried have different keys. -/
theorem Exact.apart (exact_ : s.Exact) {i j : Nat} (first : s.keys[i]? = some k) (second : s.keys[j]? = some k) (visible : i ∉ s.buried)
    (visible' : j ∉ s.buried) : i = j := by
  have named : ∀ n : Nat, s.keys[n]? = some k → n ∉ s.buried → s.current k = some n := by
    intro n there shown
    obtain ⟨other,used,_⟩ := (exact_.settled n (List.getElem?_eq_some_iff.mp there).1).resolve_left shown
    have same := (exact_.mapped other n used).1
    rw [there] at same
    cases same
    exact used
  have one := (named i first visible).symm.trans (named j second visible')
  exact Option.some.inj one

theorem Exact.keys_nodup (exact_ : s.Exact) (open_ : s.buried = []) : s.keys.Nodup := by
  refine List.nodup_iff_injective_getElem.mpr fun i j same => Fin.ext ?_
  have first : s.keys[i.val]? = some s.keys[i.val] := List.getElem?_eq_getElem i.isLt
  have second : s.keys[j.val]? = some s.keys[i.val] := by
    rw [List.getElem?_eq_getElem j.isLt]
    exact congrArg some same.symm
  exact exact_.apart first second (by simp [open_]) (by simp [open_])

end Slots
end MemoryEngine.SlotLog
