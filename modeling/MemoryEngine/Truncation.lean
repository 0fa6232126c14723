import MemoryEngine.Ranking

/-! Sorted lists cut off at a limit. A sort leaves the order of equal keys open, and the
part up to the limit is the same in every such order exactly when no two equal keys reach
into it. -/

namespace MemoryEngine.Ranking
variable {α σ : Type} [LinearOrder σ] {key : α → σ}

/-- No two items of one key are among the first of a list. -/
def Clear (key : α → σ) (limit : Nat) (l : List α) : Prop :=
  ∀ a ∈ l, ∀ b ∈ l, a ≠ b → key a = key b → limit ≤ l.countP (fun c => key a < key c)

theorem Clear.perm {limit : Nat} {l l' : List α} (clear : Clear key limit l) (same : l.Perm l') : Clear key limit l' := by
  intro a left b right apart level
  rw [← same.countP_eq]
  exact clear a (same.mem_iff.mpr left) b (same.mem_iff.mpr right) apart level

/-- Without its first item a sorted list is clear up to one less. -/
theorem Clear.tail {limit : Nat} {x : α} {l : List α} (clear : Clear key (limit + 1) (x :: l)) : Clear key limit l := by
  intro a left b right apart level
  have above := clear a (List.mem_cons_of_mem _ left) b (List.mem_cons_of_mem _ right) apart level
  rw [List.countP_cons] at above
  split at above <;> omega

/-- Two sorted lists of the same items agree up to a limit that no tie reaches into. -/
theorem take_eq_of_clear {l l' : List α} (sorted : l.Pairwise fun a b => key b ≤ key a) (sorted' : l'.Pairwise fun a b => key b ≤ key a)
    (same : l.Perm l') {limit : Nat} (clear : Clear key limit l) : l.take limit = l'.take limit := by
  induction limit generalizing l l' with
  | zero => rw [List.take_zero,List.take_zero]
  | succ limit ih =>
    cases l with
    | nil => rw [List.nil_perm.mp same]
    | cons x rest =>
      cases l' with
      | nil => cases List.perm_nil.mp same
      | cons y rest' =>
        obtain ⟨top,later⟩ := List.pairwise_cons.mp sorted
        obtain ⟨top',later'⟩ := List.pairwise_cons.mp sorted'
        have first : x = y := by
          by_contra apart
          have x_there : x ∈ rest' := (List.mem_cons.mp (same.mem_iff.mp List.mem_cons_self)).resolve_left apart
          have y_there : y ∈ rest := (List.mem_cons.mp (same.mem_iff.mpr List.mem_cons_self)).resolve_left (Ne.symm apart)
          have level : key x = key y := le_antisymm (top' x x_there) (top y y_there)
          have above := clear x List.mem_cons_self y (List.mem_cons_of_mem _ y_there) apart level
          have none_above : (x :: rest).countP (fun c => key x < key c) = 0 := by
            refine List.countP_eq_zero.mpr fun c listed => ?_
            rcases List.mem_cons.mp listed with rfl | behind
            · simp
            · simpa using top c behind
          omega
        subst first
        rw [List.take_succ_cons,List.take_succ_cons,ih later later' ((List.perm_cons x).mp same) clear.tail]

/-- The first of the items of a key, in a sorted list, stands right behind the higher ones. -/
theorem getElem?_level {l : List α} (sorted : l.Pairwise fun a b => key b ≤ key a) {x : α} {others : List α}
    (first : l.filter (fun a => key a = key x) = x :: others) : l[l.countP (fun c => key x < key c)]? = some x := by
  have parts := split_at sorted (key x)
  rw [first] at parts
  have place : l.countP (fun c => key x < key c) = (l.filter (fun a => key x < key a)).length := List.countP_eq_length_filter
  rw [place]
  refine (congrArg (fun whole => whole[(l.filter (fun a => key x < key a)).length]?) parts).trans ?_
  rw [List.getElem?_append_right le_rfl,Nat.sub_self]
  rfl

variable (key)

theorem filtered_perm (ties : Shuffle α) (l : List α) (kept : α → Bool) : ((descending key (ties.order l)).filter kept).Perm (l.filter kept) :=
  ((descending_perm key _).trans (ties.perm l)).filter kept

theorem filtered_sorted (ties : Shuffle α) (l : List α) (kept : α → Bool) :
    ((descending key (ties.order l)).filter kept).Pairwise fun a b => key b ≤ key a :=
  (descending_sorted key _).sublist List.filter_sublist

/-- Where ties favour a kept item, it stands right behind the kept items of a higher key. -/
theorem favoured_place {l : List α} {kept : α → Bool} {x : α} (listed : x ∈ l.filter kept) :
    ((descending key ((favour x).order l)).filter kept)[(l.filter kept).countP (fun c => key x < key c)]? = some x := by
  obtain ⟨member,keeps⟩ := List.mem_filter.mp listed
  obtain ⟨rest,front⟩ := favour_of_mem member
  have level : ((descending key ((favour x).order l)).filter kept).filter (fun a => key a = key x) =
      x :: (rest.filter (fun a => key a = key x)).filter kept := by
    rw [List.filter_filter,List.filter_congr fun a _ => Bool.and_comm _ _,← List.filter_filter,filter_descending,front]
    simp [keeps]
  rw [← (filtered_perm key (favour x) l kept).countP_eq]
  exact getElem?_level (filtered_sorted key (favour x) l kept) level

/-- A filtered and sorted list, cut off at a limit, does not depend on how ties are arranged
    exactly when it is clear up to the limit. -/
theorem take_order_iff (l : List α) (kept : α → Bool) (limit : Nat) :
    (∀ ties ties' : Shuffle α, ((descending key (ties.order l)).filter kept).take limit = ((descending key (ties'.order l)).filter kept).take limit) ↔
      Clear key limit (l.filter kept) := by
  constructor
  · intro agree a left b right apart level
    by_contra below
    have place : ∀ {x : α}, x ∈ l.filter kept → key x = key a →
        (((descending key ((favour x).order l)).filter kept).take limit)[(l.filter kept).countP (fun c => key a < key c)]? = some x := by
      intro x listed same
      rw [List.getElem?_take_of_lt (not_le.mp below),← same]
      exact favoured_place key listed
    have first := place left rfl
    rw [agree (favour a) (favour b),place right level.symm] at first
    exact apart (Option.some.inj first).symm
  · intro clear ties ties'
    have same := filtered_perm key ties l kept
    exact take_eq_of_clear (filtered_sorted key ties l kept) (filtered_sorted key ties' l kept)
      (same.trans (filtered_perm key ties' l kept).symm) (clear.perm same.symm)

section shown
variable {β : Type} {f : α → Option β}

theorem filterMap_filter (l : List α) : (l.filter (fun a => (f a).isSome)).filterMap f = l.filterMap f := by
  induction l with
  | nil => rfl
  | cons a rest ih =>
    cases made : f a with
    | none => simp [made,ih]
    | some b => simp [made,ih]

theorem filterMap_take {l : List α} (all : ∀ a ∈ l, (f a).isSome = true) (limit : Nat) : (l.take limit).filterMap f = (l.filterMap f).take limit := by
  induction limit generalizing l with
  | zero => rfl
  | succ limit ih =>
    cases l with
    | nil => rfl
    | cons a rest =>
      obtain ⟨here,later⟩ := List.forall_mem_cons.mp all
      obtain ⟨b,made⟩ := Option.isSome_iff_exists.mp here
      simp [made,ih later]

/-- Where results tell the items they are made of, they agree up to a limit exactly when the
    items do that have a result. -/
theorem take_filterMap_iff {back : β → α} (inverse : ∀ a b, f a = some b → back b = a) (l l' : List α) (limit : Nat) :
    (l.filterMap f).take limit = (l'.filterMap f).take limit ↔
      (l.filter (fun a => (f a).isSome)).take limit = (l'.filter (fun a => (f a).isSome)).take limit := by
  have undone : ∀ l : List α, (l.filterMap f).map back = l.filter (fun a => (f a).isSome) := by
    intro l
    induction l with
    | nil => rfl
    | cons a rest ih =>
      cases made : f a with
      | none => simp [made,ih]
      | some b => simp [made,ih,inverse a b made]
  have redone : ∀ l : List α, ((l.filter (fun a => (f a).isSome)).take limit).filterMap f = (l.filterMap f).take limit := by
    intro l
    rw [filterMap_take (fun a listed => (List.mem_filter.mp listed).2),filterMap_filter]
  constructor
  · intro same
    rw [← undone,← undone,← List.map_take,← List.map_take,same]
  · intro same
    rw [← redone,← redone,same]

end shown
end MemoryEngine.Ranking
