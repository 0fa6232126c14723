import Mathlib.Data.Multiset.Filter
import Mathlib.Algebra.Order.Group.Multiset

/-! Edits of a multiset and their replay on a copy. An edit drops the elements
that satisfy a test and then adds new ones; a store applies it in one step and
a mirror of the store replays it later. -/

namespace MemoryEngine.Mirror

universe u v
variable {α : Type u} {β : Type v}

/-- Drop what satisfies a test, then add. -/
structure Edit (α : Type u) where
  drop : α → Bool
  add : Multiset α

namespace Edit

def apply (e : Edit α) (s : Multiset α) : Multiset α := s.filter (fun x => e.drop x = false) + e.add

/-- An edit that changes nothing. -/
def skip : Edit α := ⟨fun _ => false,0⟩

@[simp] theorem skip_apply (s : Multiset α) : (skip : Edit α).apply s = s := by
  simp [skip,apply]

theorem apply_le (e : Edit α) (s : Multiset α) : e.apply s ≤ s + e.add :=
  Multiset.add_le_add_right (Multiset.filter_le _ s)

/-- An edit adds without loss exactly when its test hits nothing. -/
theorem apply_eq_add (e : Edit α) (s : Multiset α) : e.apply s = s + e.add ↔ ∀ x ∈ s, e.drop x = false := by
  rw [apply,Multiset.add_left_inj,Multiset.filter_eq_self]

/-- Two copies that agree under a projection agree after an edit whose test
    and additions pass through the projection. -/
theorem apply_map (e : Edit α) (e' : Edit β) (f : α → β) (test : ∀ x, e.drop x = e'.drop (f x))
    (added : e.add.map f = e'.add) (s : Multiset α) : (e.apply s).map f = e'.apply (s.map f) := by
  rw [apply,apply,Multiset.map_add,added,Multiset.filter_map]
  congr 2
  refine Multiset.filter_congr fun x _ => ?_
  rw [Function.comp_apply,test]

/-- What one edit drops and what the other adds have nothing in common. -/
def Apart (a b : Edit α) : Prop := (∀ x ∈ a.add, b.drop x = false) ∧ (∀ x ∈ b.add, a.drop x = false)

private theorem filter_of_balance {a b : Multiset α} {p q : α → Prop} [DecidablePred p] [DecidablePred q]
    (disjoint : ∀ x ∈ a, x ∉ b) (balance : a.filter p + b = b.filter q + a) : ∀ x ∈ a, p x := by
  classical
  intro x member
  by_contra dropped
  have counts := congrArg (Multiset.count x) balance
  have absent : Multiset.count x b = 0 := Multiset.count_eq_zero.mpr (disjoint x member)
  have present : 0 < Multiset.count x a := Multiset.count_pos.mpr member
  rw [Multiset.count_add,Multiset.count_add,Multiset.count_filter_of_neg dropped,absent] at counts
  omega

/-- Two edits with nothing added in common commute exactly when they are apart. -/
theorem apply_comm_iff (a b : Edit α) (disjoint : ∀ x ∈ a.add, x ∉ b.add) (s : Multiset α) :
    b.apply (a.apply s) = a.apply (b.apply s) ↔ Apart a b := by
  have both : ∀ c d : Edit α, d.apply (c.apply s) = (s.filter (fun x => d.drop x = false)).filter (fun x => c.drop x = false) +
      (c.add.filter (fun x => d.drop x = false) + d.add) := by
    intro c d
    rw [apply,apply,Multiset.filter_add,Multiset.add_assoc,Multiset.filter_comm]
  rw [both a b,both b a,Multiset.filter_comm,Multiset.add_right_inj]
  constructor
  · intro balance
    have swapped : ∀ x ∈ b.add, x ∉ a.add := fun x right left => disjoint x left right
    exact ⟨filter_of_balance disjoint balance,filter_of_balance swapped balance.symm⟩
  · rintro ⟨left,right⟩
    rw [Multiset.filter_eq_self.mpr left,Multiset.filter_eq_self.mpr right,Multiset.add_comm]

end Edit

/-- Apply edits one after the other. -/
def replay (edits : List (Edit α)) (s : Multiset α) : Multiset α := edits.foldl (fun s e => e.apply s) s

@[simp] theorem replay_nil (s : Multiset α) : replay [] s = s := rfl
@[simp] theorem replay_cons (e : Edit α) (rest : List (Edit α)) (s : Multiset α) :
    replay (e :: rest) s = replay rest (e.apply s) := rfl

theorem replay_append (edits edits' : List (Edit α)) (s : Multiset α) :
    replay (edits ++ edits') s = replay edits' (replay edits s) := List.foldl_append

def added (edits : List (Edit α)) : Multiset α := (edits.map Edit.add).sum

theorem replay_le (edits : List (Edit α)) (s : Multiset α) : replay edits s ≤ s + added edits := by
  induction edits generalizing s with
  | nil => simp [added]
  | cons e rest ih =>
    have first := (ih (e.apply s)).trans (Multiset.add_le_add_right (e.apply_le s))
    rwa [Multiset.add_assoc] at first

/-- A replay loses nothing exactly when no test hits the initial elements and no
    test hits what an earlier edit added. -/
theorem replay_eq_add (edits : List (Edit α)) (s : Multiset α) : replay edits s = s + added edits ↔
    (∀ e ∈ edits, ∀ x ∈ s, e.drop x = false) ∧
      edits.Pairwise (fun earlier later => ∀ x ∈ earlier.add, later.drop x = false) := by
  induction edits generalizing s with
  | nil => simp [added]
  | cons e rest ih =>
    have total : added (e :: rest) = e.add + added rest := rfl
    rw [replay_cons,total,List.pairwise_cons,List.forall_mem_cons]
    constructor
    · intro lossless
      have kept : e.apply s = s + e.add := by
        refine le_antisymm (e.apply_le s) ?_
        have bound := replay_le rest (e.apply s)
        rw [lossless,← Multiset.add_assoc] at bound
        exact le_of_add_le_add_right bound
      rw [kept,← Multiset.add_assoc,ih] at lossless
      obtain ⟨untouched,pairwise⟩ := lossless
      refine ⟨⟨(e.apply_eq_add s).mp kept,fun later member x old => ?_⟩,fun later member x new => ?_,pairwise⟩
      · exact untouched later member x (Multiset.mem_add.mpr (.inl old))
      · exact untouched later member x (Multiset.mem_add.mpr (.inr new))
    · rintro ⟨⟨here,later⟩,fresh,pairwise⟩
      rw [(e.apply_eq_add s).mpr here,← Multiset.add_assoc]
      refine (ih (s + e.add)).mpr ⟨fun next member x held => ?_,pairwise⟩
      rcases Multiset.mem_add.mp held with old | new
      · exact later next member x old
      · exact fresh next member x new

/-- Edits that do not undo each other drop in one go and add in one go. -/
theorem replay_eq_filter (edits : List (Edit α)) (s : Multiset α)
    (kept : edits.Pairwise (fun earlier later => ∀ x ∈ earlier.add, later.drop x = false)) :
    replay edits s = s.filter (fun x => ∀ e ∈ edits, e.drop x = false) + added edits := by
  induction edits generalizing s with
  | nil => simp [added]
  | cons e rest ih =>
    obtain ⟨here,rest_kept⟩ := List.pairwise_cons.mp kept
    have total : added (e :: rest) = e.add + added rest := rfl
    have whole : e.add.filter (fun x => ∀ later ∈ rest, later.drop x = false) = e.add :=
      Multiset.filter_eq_self.mpr fun x member later among => here later among x member
    rw [replay_cons,ih _ rest_kept,Edit.apply,Multiset.filter_add,whole,total,Multiset.add_assoc,Multiset.filter_filter]
    congr 1
    refine Multiset.filter_congr fun x _ => ?_
    rw [List.forall_mem_cons,and_comm]

end MemoryEngine.Mirror
