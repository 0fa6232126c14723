import Mathlib.Data.List.Basic
import Mathlib.Data.List.TakeWhile
import Mathlib.Algebra.BigOperators.Group.List.Basic
import Mathlib.Algebra.Ring.Nat

/-! Texts whose positions are counted in bytes of UTF-8. A position is a boundary when
it stands between two characters; a slice at any other position does not exist. -/

namespace MemoryEngine.ByteText

abbrev Text := List Char

/-- The length in bytes. -/
def size (text : Text) : Nat := (text.map Char.utf8Size).sum

@[simp] theorem size_nil : size [] = 0 := rfl
@[simp] theorem size_cons (c : Char) (text : Text) : size (c :: text) = c.utf8Size + size text := by simp [size]
@[simp] theorem size_append (a b : Text) : size (a ++ b) = size a + size b := by simp [size]

@[simp] theorem size_reverse (a : Text) : size a.reverse = size a := by simp [size,List.sum_reverse]

theorem size_pos {text : Text} (some_ : text ≠ []) : 0 < size text := by
  cases text with
  | nil => exact absurd rfl some_
  | cons c rest =>
    have := Char.utf8Size_pos c
    rw [size_cons]
    omega

theorem length_le_size (text : Text) : text.length ≤ size text := by
  induction text with
  | nil => exact Nat.le_refl _
  | cons c rest ih =>
    have := Char.utf8Size_pos c
    rw [size_cons,List.length_cons]
    omega

/-- The two sides of a position. -/
def splitAt : Text → Nat → Option (Text × Text)
  | text,0 => some ([],text)
  | [],_ + 1 => none
  | c :: rest,n + 1 =>
    if c.utf8Size ≤ n + 1 then (splitAt rest (n + 1 - c.utf8Size)).map fun sides => (c :: sides.1,sides.2) else none

theorem splitAt_size (a b : Text) : splitAt (a ++ b) (size a) = some (a,b) := by
  induction a with
  | nil => cases b <;> rfl
  | cons c rest ih =>
    have positive := Char.utf8Size_pos c
    obtain ⟨n,length⟩ : ∃ n, size (c :: rest) = n + 1 := ⟨size (c :: rest) - 1,by rw [size_cons]; omega⟩
    rw [length,List.cons_append,splitAt,← length,size_cons,if_pos (by omega),Nat.add_sub_cancel_left,ih]
    rfl

theorem splitAt_iff {text a b : Text} {n : Nat} : splitAt text n = some (a,b) ↔ text = a ++ b ∧ n = size a := by
  constructor
  · intro split
    induction text generalizing n a with
    | nil =>
      cases n with
      | zero =>
        cases split
        exact ⟨rfl,rfl⟩
      | succ n => cases split
    | cons c rest ih =>
      cases n with
      | zero =>
        cases split
        exact ⟨rfl,rfl⟩
      | succ n =>
        rw [splitAt] at split
        by_cases fits : c.utf8Size ≤ n + 1
        · rw [if_pos fits] at split
          obtain ⟨sides,deeper,same⟩ := Option.map_eq_some_iff.mp split
          cases same
          obtain ⟨parts,length⟩ := ih deeper
          refine ⟨by rw [parts]; rfl,?_⟩
          rw [size_cons]
          omega
        · rw [if_neg fits] at split
          cases split
  · rintro ⟨rfl,rfl⟩
    exact splitAt_size a b

/-- The position stands between two characters, or at an end. -/
def Boundary (text : Text) (n : Nat) : Prop := ∃ a b, text = a ++ b ∧ n = size a

theorem Boundary.le {text : Text} {n : Nat} (boundary : Boundary text n) : n ≤ size text := by
  obtain ⟨a,b,rfl,rfl⟩ := boundary
  rw [size_append]
  omega

/-- Two splits at one position are the same. -/
theorem split_unique {a b a' b' : Text} (same : a ++ b = a' ++ b') (sizes : size a = size a') : a = a' ∧ b = b' := by
  have first := splitAt_size a b
  rw [same,sizes,splitAt_size] at first
  cases first
  exact ⟨rfl,rfl⟩

/-- Of two splits one comes first. -/
theorem split_before {a b a' b' : Text} (same : a ++ b = a' ++ b') (sizes : size a ≤ size a') : ∃ m, a' = a ++ m ∧ b = m ++ b' := by
  rcases List.append_eq_append_iff.mp same with ⟨m,longer,tail⟩ | ⟨m,rfl,tail⟩
  · exact ⟨m,longer,tail⟩
  · rw [size_append] at sizes
    have nothing : m = [] := by
      by_contra some_
      have := size_pos some_
      omega
    subst nothing
    exact ⟨[],by rw [List.append_nil,List.append_nil],tail.symm⟩

/-- The text from a position on. -/
def sliceFrom (text : Text) (start : Nat) : Option Text := (splitAt text start).map Prod.snd

/-- The text up to a position. -/
def sliceTo (text : Text) (stop : Nat) : Option Text := (splitAt text stop).map Prod.fst

/-- The text between two positions. -/
def slice (text : Text) (start stop : Nat) : Option Text :=
  if start ≤ stop then (sliceFrom text start).bind fun rest => sliceTo rest (stop - start) else none

theorem sliceFrom_iff {text b : Text} {n : Nat} : sliceFrom text n = some b ↔ ∃ a, text = a ++ b ∧ n = size a := by
  unfold sliceFrom
  rw [Option.map_eq_some_iff]
  constructor
  · rintro ⟨⟨a,_⟩,split,rfl⟩
    exact ⟨a,splitAt_iff.mp split⟩
  · rintro ⟨a,parts⟩
    exact ⟨(a,b),splitAt_iff.mpr parts,rfl⟩

/-- No slice begins inside a character. -/
theorem sliceFrom_inside (a rest : Text) {c : Char} (wide : 1 < c.utf8Size) : sliceFrom (a ++ c :: rest) (size a + 1) = none := by
  rw [Option.eq_none_iff_forall_ne_some]
  intro b begins
  obtain ⟨a',parts,length⟩ := sliceFrom_iff.mp begins
  rcases List.append_eq_append_iff.mp parts with ⟨more,rfl,tail⟩ | ⟨more,rfl,_⟩
  · rw [size_append] at length
    cases more with
    | nil =>
      rw [size_nil] at length
      omega
    | cons d more =>
      obtain ⟨rfl,_⟩ := List.cons.inj tail
      rw [size_cons] at length
      omega
  · rw [size_append] at length
    omega

theorem sliceTo_iff {text a : Text} {n : Nat} : sliceTo text n = some a ↔ ∃ b, text = a ++ b ∧ n = size a := by
  unfold sliceTo
  rw [Option.map_eq_some_iff]
  constructor
  · rintro ⟨⟨_,b⟩,split,rfl⟩
    exact ⟨b,splitAt_iff.mp split⟩
  · rintro ⟨b,parts⟩
    exact ⟨(a,b),splitAt_iff.mpr parts,rfl⟩

theorem slice_iff {text middle : Text} {start stop : Nat} : slice text start stop = some middle ↔
    ∃ a b, text = a ++ (middle ++ b) ∧ start = size a ∧ stop = start + size middle := by
  unfold slice
  by_cases ordered : start ≤ stop
  · rw [if_pos ordered,Option.bind_eq_some_iff]
    constructor
    · rintro ⟨rest,first,second⟩
      obtain ⟨a,rfl,from_⟩ := sliceFrom_iff.mp first
      obtain ⟨b,rfl,length⟩ := sliceTo_iff.mp second
      exact ⟨a,b,rfl,from_,by omega⟩
    · rintro ⟨a,b,parts,from_,length⟩
      exact ⟨middle ++ b,sliceFrom_iff.mpr ⟨a,parts,from_⟩,sliceTo_iff.mpr ⟨b,rfl,by omega⟩⟩
  · rw [if_neg ordered]
    constructor
    · rintro ⟨⟩
    · rintro ⟨a,b,_,_,length⟩
      omega

/-- The position of the first occurrence. -/
def find (needle : Text) : Text → Option Nat
  | [] => if needle = [] then some 0 else none
  | c :: rest => if needle.isPrefixOf (c :: rest) = true then some 0 else (find needle rest).map (c.utf8Size + ·)

/-- The position of the first character of a kind. -/
def findChar (p : Char → Bool) : Text → Option Nat
  | [] => none
  | c :: rest => if p c = true then some 0 else (findChar p rest).map (c.utf8Size + ·)

/-- The needle occurs after this part. -/
def Occurs (needle text a : Text) : Prop := ∃ b, text = a ++ (needle ++ b)

theorem find_none {needle text : Text} : find needle text = none ↔ ∀ a, ¬ Occurs needle text a := by
  induction text with
  | nil =>
    unfold find
    by_cases empty : needle = []
    · rw [if_pos empty]
      simp only [reduceCtorEq,false_iff,not_forall,not_not]
      exact ⟨[],[],by rw [empty]; rfl⟩
    · rw [if_neg empty]
      simp only [true_iff]
      rintro a ⟨b,parts⟩
      obtain ⟨_,rest⟩ := List.append_eq_nil_iff.mp parts.symm
      exact empty (List.append_eq_nil_iff.mp rest).1
  | cons c rest ih =>
    unfold find
    by_cases here : needle.isPrefixOf (c :: rest) = true
    · rw [if_pos here]
      simp only [reduceCtorEq,false_iff,not_forall,not_not]
      obtain ⟨b,parts⟩ := List.isPrefixOf_iff_prefix.mp here
      exact ⟨[],b,parts.symm⟩
    · rw [if_neg here,Option.map_eq_none_iff,ih]
      constructor
      · rintro none_ a ⟨b,parts⟩
        cases a with
        | nil => exact here (List.isPrefixOf_iff_prefix.mpr ⟨b,parts.symm⟩)
        | cons d a =>
          obtain ⟨rfl,tail⟩ := List.cons.inj parts
          exact none_ a ⟨b,tail⟩
      · rintro none_ a ⟨b,parts⟩
        exact none_ (c :: a) ⟨b,by rw [parts]; rfl⟩

/-- What is found is an occurrence, and there is none before it. -/
theorem find_some {needle text : Text} {n : Nat} (found : find needle text = some n) :
    ∃ a, Occurs needle text a ∧ n = size a ∧ ∀ a', Occurs needle text a' → n ≤ size a' := by
  induction text generalizing n with
  | nil =>
    unfold find at found
    by_cases empty : needle = []
    · rw [if_pos empty] at found
      cases found
      exact ⟨[],⟨[],by rw [empty]; rfl⟩,rfl,fun _ _ => Nat.zero_le _⟩
    · rw [if_neg empty] at found
      cases found
  | cons c rest ih =>
    unfold find at found
    by_cases here : needle.isPrefixOf (c :: rest) = true
    · rw [if_pos here] at found
      cases found
      obtain ⟨b,parts⟩ := List.isPrefixOf_iff_prefix.mp here
      exact ⟨[],⟨b,parts.symm⟩,rfl,fun _ _ => Nat.zero_le _⟩
    · rw [if_neg here] at found
      obtain ⟨m,later,rfl⟩ := Option.map_eq_some_iff.mp found
      obtain ⟨a,⟨b,parts⟩,rfl,first⟩ := ih later
      refine ⟨c :: a,⟨b,by rw [parts]; rfl⟩,(size_cons c a).symm,?_⟩
      rintro a' ⟨b',parts'⟩
      cases a' with
      | nil => exact absurd (List.isPrefixOf_iff_prefix.mpr ⟨b',parts'.symm⟩) here
      | cons d a' =>
        obtain ⟨rfl,tail⟩ := List.cons.inj parts'
        have := first a' ⟨b',tail⟩
        rw [size_cons]
        omega

/-- The first character of a kind comes after those that are not. -/
theorem findChar_eq (p : Char → Bool) (text : Text) :
    findChar p text = if text.any p = true then some (size (text.takeWhile fun c => !p c)) else none := by
  induction text with
  | nil => rfl
  | cons c rest ih =>
    unfold findChar
    by_cases here : p c = true
    · simp [here]
    · rw [if_neg here,ih]
      by_cases later : rest.any p = true
      · simp [here,later]
      · simp [here,later]

/-- The part before the first character of a kind, all of it without one. -/
theorem findChar_getD (p : Char → Bool) (text : Text) :
    (findChar p text).getD (size text) = size (text.takeWhile fun c => !p c) := by
  rw [findChar_eq]
  by_cases some_ : text.any p = true
  · rw [if_pos some_]
    rfl
  · rw [if_neg some_,Option.getD_none]
    have all : ∀ c ∈ text, (!p c) = true := by
      intro c member
      simp only [List.any_eq_true,not_exists,not_and,Bool.not_eq_true] at some_
      rw [some_ c member]
      rfl
    rw [List.takeWhile_eq_self_iff.mpr all]

/-- The position of the last character of a kind. -/
def rfindChar (p : Char → Bool) : Text → Option Nat
  | [] => none
  | c :: rest => match rfindChar p rest with
    | some n => some (c.utf8Size + n)
    | none => if p c = true then some 0 else none

/-- A search that goes from one occurrence of a needle to the next. What is done at an occurrence says where the
    search goes on, if it does; a bounded search ends with the text. -/
def scan {α : Type} (text needle : Text) (bounded : Bool) (visit : Nat → Option (List α × Option Nat)) : Nat → Nat → Option (List α)
  | 0,_ => none
  | fuel + 1,search_start =>
    if bounded = true ∧ size text ≤ search_start then some [] else do
      match find needle (← sliceFrom text search_start) with
      | none => return []
      | some rel =>
        match ← visit (search_start + rel) with
        | (hits,none) => return hits
        | (hits,some next) => return hits ++ (← scan text needle bounded visit fuel next)

/-- What is found at each position, from the part before it, last character first, and the
    part from it on. -/
def walk {α : Type} (here : Text → Text → List α) (before : Text) : Text → List α
  | [] => []
  | c :: rest => here before (c :: rest) ++ walk here (c :: before) rest

theorem mem_walk {α : Type} {here : Text → Text → List α} {before text : Text} {x : α} :
    x ∈ walk here before text ↔ ∃ a c b, text = a ++ c :: b ∧ x ∈ here (a.reverse ++ before) (c :: b) := by
  induction text generalizing before with
  | nil => simp [walk]
  | cons d rest ih =>
    rw [walk,List.mem_append,ih]
    constructor
    · rintro (first | ⟨a,c,b,rfl,later⟩)
      · exact ⟨[],d,rest,rfl,first⟩
      · refine ⟨d :: a,c,b,rfl,?_⟩
        rwa [List.reverse_cons,List.append_assoc]
    · rintro ⟨a,c,b,parts,found⟩
      cases a with
      | nil =>
        obtain ⟨rfl,rfl⟩ := List.cons.inj parts
        exact Or.inl found
      | cons e a =>
        obtain ⟨rfl,tail⟩ := List.cons.inj parts
        refine Or.inr ⟨a,c,b,tail,?_⟩
        rwa [List.reverse_cons,List.append_assoc] at found

theorem walk_eq_nil {α : Type} {here : Text → Text → List α} {before text : Text} :
    walk here before text = [] ↔ ∀ a d b, text = a ++ d :: b → here (a.reverse ++ before) (d :: b) = [] := by
  rw [List.eq_nil_iff_forall_not_mem]
  constructor
  · intro none_ a d b parts
    rw [List.eq_nil_iff_forall_not_mem]
    exact fun x hit => none_ x (mem_walk.mpr ⟨a,d,b,parts,hit⟩)
  · intro none_ x found
    obtain ⟨a,d,b,parts,hit⟩ := mem_walk.mp found
    rw [none_ a d b parts] at hit
    cases hit

/-! ## Searches -/

section scan
variable {α : Type} {text needle : Text} {bounded : Bool} {visit : Nat → Option (List α × Option Nat)}

theorem sliceFrom_append (a b : Text) : sliceFrom (a ++ b) (size a) = some b := sliceFrom_iff.mpr ⟨a,rfl,rfl⟩
theorem sliceTo_append (a b : Text) : sliceTo (a ++ b) (size a) = some a := sliceTo_iff.mpr ⟨b,rfl,rfl⟩

/-- A search goes on between two characters as it would without an end. -/
theorem scan_boundary (solid : needle ≠ []) {a rest : Text} (fuel : Nat) :
    scan (a ++ rest) needle bounded visit (fuel + 1) (size a) = match find needle rest with
      | none => some []
      | some rel => (visit (size a + rel)).bind fun step => match step.2 with
        | none => some step.1
        | some next => (scan (a ++ rest) needle bounded visit fuel next).map (step.1 ++ ·) := by
  rw [scan]
  by_cases over_ : bounded = true ∧ size (a ++ rest) ≤ size a
  · have nothing : rest = [] := by
      by_contra more
      have := size_pos more
      rw [size_append] at over_
      omega
    subst nothing
    rw [if_pos over_,find,if_neg solid]
  · rw [if_neg over_,sliceFrom_append]
    simp only [Option.pure_def,Option.bind_eq_bind,Option.bind_some]
    cases find needle rest with
    | none => rfl
    | some rel =>
      simp only
      congr 1
      funext step
      obtain ⟨hits,next⟩ := step
      cases next with
      | none => rfl
      | some next =>
        simp only
        cases scan (a ++ rest) needle bounded visit fuel next <;> rfl

theorem scan_end {fuel start : Nat} (past : size text ≤ start) : scan text needle true visit (fuel + 1) start = some [] := by
  rw [scan,if_pos ⟨rfl,past⟩]

/-- No occurrence begins with this character. -/
theorem scan_cons (solid : needle ≠ []) {a rest : Text} {c : Char} (elsewhere : ¬ needle <+: c :: rest) (fuel : Nat) :
    scan (a ++ c :: rest) needle bounded visit (fuel + 1) (size a) = scan (a ++ c :: rest) needle bounded visit (fuel + 1) (size (a ++ [c])) := by
  have same : a ++ c :: rest = (a ++ [c]) ++ rest := by rw [List.append_assoc]; rfl
  rw [scan_boundary solid,same,scan_boundary solid,find,if_neg (mt List.isPrefixOf_iff_prefix.mp elsewhere)]
  cases find needle rest with
  | none => rfl
  | some rel =>
    simp only [Option.map_some,size_append,size_cons,size_nil]
    rw [show size a + (c.utf8Size + rel) = size a + (c.utf8Size + 0) + rel by omega]

/-- A search that goes on one byte after each occurrence comes to all of them. -/
theorem scan_walk {c₀ : Char} {tail : Text} (single : c₀.utf8Size = 1) {here : Text → Text → List α}
    (elsewhere : ∀ before rest, ¬ c₀ :: tail <+: rest → here before rest = [])
    (visits : ∀ a rest, text = a ++ rest → c₀ :: tail <+: rest → visit (size a) = some (here a.reverse rest,some (size a + 1)))
    {a rest : Text} (parts : text = a ++ rest) {fuel : Nat} (enough : rest.length < fuel) :
    scan text (c₀ :: tail) bounded visit fuel (size a) = some (walk here a.reverse rest) := by
  induction rest generalizing a fuel with
  | nil =>
    obtain ⟨fuel,rfl⟩ : ∃ n, fuel = n + 1 := ⟨fuel - 1,by simp at enough; omega⟩
    rw [parts,scan_boundary (List.cons_ne_nil _ _)]
    rfl
  | cons c rest ih =>
    obtain ⟨fuel,rfl⟩ : ∃ n, fuel = n + 1 := ⟨fuel - 1,by rw [List.length_cons] at enough; omega⟩
    rw [List.length_cons] at enough
    have parts' : text = (a ++ [c]) ++ rest := by rw [parts,List.append_assoc]; rfl
    have reversed : (a ++ [c]).reverse = c :: a.reverse := by simp
    by_cases present : c₀ :: tail <+: c :: rest
    · have first : c = c₀ := ((List.cons_prefix_cons.mp present).1).symm
      have next : size (a ++ [c]) = size a + 1 := by rw [size_append,size_cons,size_nil,first,single]
      have seen := visits a (c :: rest) parts present
      have deeper : scan text (c₀ :: tail) bounded visit fuel (size (a ++ [c])) = _ := ih parts' (by omega)
      rw [reversed,next] at deeper
      subst parts
      rw [scan_boundary (List.cons_ne_nil _ _),find,if_pos (List.isPrefixOf_iff_prefix.mpr present)]
      simp only [Nat.add_zero,seen,Option.bind_some,deeper,Option.map_some,walk]
    · have deeper : scan text (c₀ :: tail) bounded visit (fuel + 1) (size (a ++ [c])) = _ := ih parts' (by omega)
      rw [reversed] at deeper
      subst parts
      rw [scan_cons (List.cons_ne_nil _ _) present,deeper,walk,elsewhere _ _ present,List.nil_append]

/-- A search with progress ends, and what it returns was found at an occurrence. -/
theorem scan_total (solid : needle ≠ []) (visits : ∀ a b, text = a ++ (needle ++ b) → ∃ step, visit (size a) = some step ∧
      ∀ n, step.2 = some n → size a < n ∧ (Boundary text n ∨ bounded = true ∧ size text ≤ n))
    {start fuel : Nat} (stand : Boundary text start ∨ bounded = true ∧ size text ≤ start) (enough : size text < fuel + start) (positive : 0 < fuel) :
    ∃ hits, scan text needle bounded visit fuel start = some hits ∧
      ∀ x ∈ hits, ∃ a b step, text = a ++ (needle ++ b) ∧ visit (size a) = some step ∧ x ∈ step.1 := by
  induction fuel generalizing start with
  | zero => cases positive
  | succ fuel ih =>
    rcases stand with ⟨a,rest,parts,rfl⟩ | ⟨rfl,past⟩
    · subst parts
      rw [scan_boundary solid]
      cases found : find needle rest with
      | none => exact ⟨[],rfl,fun _ member => absurd member List.not_mem_nil⟩
      | some rel =>
        obtain ⟨b,⟨c,rfl⟩,rfl,_⟩ := find_some found
        obtain ⟨⟨hits,next⟩,seen,goes⟩ := visits (a ++ b) c (by rw [List.append_assoc])
        rw [size_append] at seen goes
        simp only [seen,Option.bind_some]
        have here : ∀ x ∈ hits, ∃ a' b' step, a ++ (b ++ (needle ++ c)) = a' ++ (needle ++ b') ∧ visit (size a') = some step ∧ x ∈ step.1 :=
          fun x member => ⟨a ++ b,c,(hits,next),by rw [List.append_assoc],by rw [size_append,seen],member⟩
        cases next with
        | none => exact ⟨hits,rfl,here⟩
        | some n =>
          obtain ⟨ahead,stand⟩ := goes n rfl
          have inside := size_pos solid
          simp only [size_append] at enough ih stand
          obtain ⟨later,ran,members⟩ := ih stand (by omega) (by omega)
          refine ⟨hits ++ later,by simp only [ran,Option.map_some],fun x member => ?_⟩
          rcases List.mem_append.mp member with first | second
          · exact here x first
          · exact members x second
    · exact ⟨[],scan_end past,fun _ member => absurd member List.not_mem_nil⟩

/-- Occurrences at one position are one. -/
theorem Occurs.unique {a b : Text} (first : Occurs needle text a) (second : Occurs needle text b) (same : size a = size b) : a = b := by
  obtain ⟨x,whole⟩ := first
  obtain ⟨y,whole'⟩ := second
  exact (split_unique (whole.symm.trans whole') same).1

/-- Every occurrence is one that a search comes to, or lies before the place where the search goes on after an
    earlier one. -/
theorem scan_meets (solid : needle ≠ [])
    (visits : ∀ a, Occurs needle text a → ∃ step, visit (size a) = some step ∧ ∀ n, step.2 = some n → Boundary text n)
    {start fuel : Nat} {hits : List α} (stand : Boundary text start) (ran : scan text needle bounded visit fuel start = some hits)
    {a : Text} (occurs : Occurs needle text a) (ahead : start ≤ size a) :
    ∃ b step, Occurs needle text b ∧ size b ≤ size a ∧ visit (size b) = some step ∧ (∀ x ∈ step.1, x ∈ hits) ∧
      (size b = size a ∨ ∀ n, step.2 = some n → size a < n) := by
  induction fuel generalizing start hits with
  | zero => cases ran
  | succ fuel ih =>
    obtain ⟨c,rest,parts,rfl⟩ := stand
    obtain ⟨y,whole⟩ := occurs
    obtain ⟨a',rfl,rest_⟩ := split_before (parts.symm.trans whole) ahead
    rw [parts,scan_boundary solid,← parts] at ran
    cases found : find needle rest with
    | none => exact absurd ⟨y,rest_⟩ (find_none.mp found a')
    | some rel =>
      obtain ⟨b,⟨z,split⟩,rfl,earliest⟩ := find_some found
      have here : Occurs needle text (c ++ b) := ⟨z,by rw [parts,split,List.append_assoc]⟩
      obtain ⟨⟨first,next⟩,seen,stands⟩ := visits (c ++ b) here
      have upto : size (c ++ b) ≤ size (c ++ a') := by
        have := earliest a' ⟨y,rest_⟩
        simp only [size_append]
        omega
      have seen' := seen
      rw [size_append] at seen'
      simp only [found,seen',Option.bind_some] at ran
      cases next with
      | none =>
        cases ran
        exact ⟨c ++ b,_,here,upto,seen,fun x member => member,Or.inr fun n none_ => by cases none_⟩
      | some n =>
        obtain ⟨later,deeper,rfl⟩ := Option.map_eq_some_iff.mp ran
        by_cases beyond : n ≤ size (c ++ a')
        · obtain ⟨d,step,there,low,visited,members,last⟩ := ih (stands n rfl) deeper beyond
          exact ⟨d,step,there,low,visited,fun x member => List.mem_append_right _ (members x member),last⟩
        · refine ⟨c ++ b,_,here,upto,seen,fun x member => List.mem_append_left _ member,Or.inr fun m same => ?_⟩
          cases same
          exact Nat.lt_of_not_le beyond

end scan

theorem find_singleton (c : Char) (text : Text) : find [c] text = findChar (· == c) text := by
  induction text with
  | nil => rfl
  | cons d rest ih =>
    unfold find findChar
    rw [ih]
    by_cases same : d = c
    · subst same
      simp [List.isPrefixOf]
    · rw [if_neg (by simpa [List.isPrefixOf] using Ne.symm same),if_neg (by simpa using same)]

theorem findChar_split (p : Char → Bool) (text : Text) : findChar p text = none ∧ (∀ c ∈ text, p c = false) ∨
    ∃ a c b, text = a ++ c :: b ∧ p c = true ∧ (∀ d ∈ a, p d = false) ∧ findChar p text = some (size a) := by
  induction text with
  | nil => exact Or.inl ⟨rfl,fun _ member => absurd member List.not_mem_nil⟩
  | cons d rest ih =>
    rw [findChar]
    by_cases here : p d = true
    · exact Or.inr ⟨[],d,rest,rfl,here,fun _ member => absurd member List.not_mem_nil,if_pos here⟩
    · rw [if_neg here]
      rcases ih with ⟨none_,free⟩ | ⟨a,c,b,rfl,kind,first,found⟩
      · rw [none_]
        refine Or.inl ⟨rfl,fun c member => ?_⟩
        rcases List.mem_cons.mp member with rfl | later
        · exact Bool.eq_false_iff.mpr here
        · exact free c later
      · refine Or.inr ⟨d :: a,c,b,rfl,kind,fun c member => ?_,?_⟩
        · rcases List.mem_cons.mp member with rfl | later
          · exact Bool.eq_false_iff.mpr here
          · exact first c later
        · rw [found]
          rfl

/-- The last character of a kind comes before those that are not. -/
theorem rfindChar_eq (p : Char → Bool) (text : Text) : rfindChar p text = none ∧ (∀ c ∈ text, p c = false) ∨
    ∃ a c b, text = a ++ c :: b ∧ p c = true ∧ (∀ d ∈ b, p d = false) ∧ rfindChar p text = some (size a) := by
  induction text with
  | nil => exact Or.inl ⟨rfl,fun _ member => absurd member List.not_mem_nil⟩
  | cons d rest ih =>
    rw [rfindChar]
    rcases ih with ⟨none_,free⟩ | ⟨a,c,b,rfl,kind,last,found⟩
    · rw [none_]
      by_cases here : p d = true
      · exact Or.inr ⟨[],d,rest,rfl,here,free,if_pos here⟩
      · refine Or.inl ⟨if_neg here,fun c member => ?_⟩
        rcases List.mem_cons.mp member with rfl | later
        · exact Bool.eq_false_iff.mpr here
        · exact free c later
    · refine Or.inr ⟨d :: a,c,b,rfl,kind,last,?_⟩
      rw [found]
      rfl

end MemoryEngine.ByteText
