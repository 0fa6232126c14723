import Mathlib.Algebra.Ring.Nat
import Mathlib.Data.List.TakeDrop

/-! Byte strings cut into parts by position: numbers as little-endian bytes, and slices that
fail where a program would panic. -/

namespace MemoryEngine.Framing

universe u

/-- The lowest bytes of a number, lowest first. -/
def leBytes : Nat → Nat → List UInt8
  | 0,_ => []
  | width + 1,n => UInt8.ofNat n :: leBytes width (n / 256)

def leValue : List UInt8 → Nat
  | [] => 0
  | b :: rest => b.toNat + 256 * leValue rest

@[simp] theorem length_leBytes (width n : Nat) : (leBytes width n).length = width := by
  induction width generalizing n with
  | zero => rfl
  | succ width ih => rw [leBytes,List.length_cons,ih]

theorem leValue_leBytes {width n : Nat} (fits : n < 256 ^ width) : leValue (leBytes width n) = n := by
  induction width generalizing n with
  | zero => simpa [leBytes,leValue,eq_comm] using fits
  | succ width ih =>
    have higher : n / 256 < 256 ^ width := Nat.div_lt_of_lt_mul (by rwa [Nat.pow_succ,Nat.mul_comm] at fits)
    rw [leBytes,leValue,ih higher,UInt8.toNat_ofNat']
    omega

theorem leValue_lt (bytes : List UInt8) : leValue bytes < 256 ^ bytes.length := by
  induction bytes with
  | nil => simp [leValue]
  | cons b rest ih =>
    have low := b.toNat_lt
    rw [leValue,List.length_cons,Nat.pow_succ]
    omega

theorem leBytes_leValue (bytes : List UInt8) : leBytes bytes.length (leValue bytes) = bytes := by
  induction bytes with
  | nil => rfl
  | cons b rest ih =>
    have low := b.toNat_lt
    have higher : (b.toNat + 256 * leValue rest) / 256 = leValue rest := by omega
    rw [leValue,List.length_cons,leBytes,higher,ih]
    congr 1
    apply UInt8.toNat_inj.mp
    rw [UInt8.toNat_ofNat']
    omega

section slices
variable {β : Type u}

/-- The part between two positions, which have to be in order and in range. -/
def slice (data : List β) (start stop : Nat) : Option (List β) :=
  if start ≤ stop ∧ stop ≤ data.length then some ((data.take stop).drop start) else none

theorem slice_middle (front middle back : List β) :
    slice (front ++ (middle ++ back)) front.length (front.length + middle.length) = some middle := by
  have inside : front.length ≤ front.length + middle.length ∧ front.length + middle.length ≤ (front ++ (middle ++ back)).length := by
    simp
  rw [slice,if_pos inside,← List.append_assoc,← List.length_append,List.take_left',List.drop_left']
  · rfl
  · rfl

theorem slice_inside {data : List β} {start stop : Nat} (ordered : start ≤ stop) (inside : stop ≤ data.length) :
    slice data start stop = some ((data.take stop).drop start) := if_pos ⟨ordered,inside⟩

/-- Four positions in order cut the data into its parts. -/
theorem cut (data : List β) {i j : Nat} (ordered : i ≤ j) :
    data = data.take i ++ ((data.take j).drop i ++ data.drop j) := by
  have first : data.take j = (data.take j).take i ++ (data.take j).drop i := (List.take_append_drop i _).symm
  rw [List.take_take,Nat.min_eq_left ordered] at first
  rw [← List.append_assoc,← first,List.take_append_drop]

end slices
end MemoryEngine.Framing
