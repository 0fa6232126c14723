import Mathlib.Data.List.Sort
import Mathlib.Data.List.Count
import Mathlib.Data.List.Infix

/-! Ranking by a key. A stable sort puts the highest keys first. A heap of bounded
size keeps the best items of a stream; which of several equal items it gives up is
not specified. Both are described by counts of the items ahead, and so is what a
list loses when it is cut before it is screened. -/

namespace MemoryEngine.Ranking

/-- Some rearrangement of a list, for an order that is not specified. -/
structure Shuffle (α : Type) where
  order : List α → List α
  perm : ∀ l, (order l).Perm l

/-- The order in which the items already are. -/
def Shuffle.keep (α : Type) : Shuffle α := ⟨id,fun l => List.Perm.refl l⟩

section rank
variable {α σ : Type} [LinearOrder σ] (key : α → σ)

/-- The highest key first, equal keys in the order they had. -/
def descending (l : List α) : List α := l.insertionSort (fun a b => key b ≤ key a)

instance total_key : Std.Total (fun a b : α => key b ≤ key a) := ⟨fun a b => le_total (key b) (key a)⟩

instance trans_key : IsTrans α (fun a b => key b ≤ key a) := ⟨fun _ _ _ first second => second.trans first⟩

theorem descending_perm (l : List α) : (descending key l).Perm l := List.perm_insertionSort _ l

theorem descending_sorted (l : List α) : (descending key l).Pairwise (fun a b => key b ≤ key a) := List.pairwise_insertionSort _ l

variable {key}

@[simp] theorem mem_descending {l : List α} {x : α} : x ∈ descending key l ↔ x ∈ l := (descending_perm key l).mem_iff

/-- Sorting is stable. -/
theorem filter_descending (l : List α) (v : σ) :
    (descending key l).filter (fun a => key a = v) = l.filter (fun a => key a = v) := by
  have level : (l.filter (fun a => key a = v)).Pairwise (fun a b => key b ≤ key a) := by
    refine List.pairwise_of_forall_mem_list fun a listed b listed' => ?_
    have first : key a = v := by simpa using (List.mem_filter.mp listed).2
    have second : key b = v := by simpa using (List.mem_filter.mp listed').2
    exact le_of_eq (second.trans first.symm)
  have inside := (List.sublist_insertionSort (r := fun a b => key b ≤ key a) level List.filter_sublist).filter (fun a => key a = v)
  rw [List.filter_filter] at inside
  simp only [Bool.and_self] at inside
  refine (inside.eq_of_length ?_).symm
  exact ((descending_perm key l).filter _).length_eq.symm

/-- A list from the highest key down splits at every key. -/
theorem split_at {l : List α} (sorted : l.Pairwise (fun a b => key b ≤ key a)) (v : σ) :
    l = l.filter (fun a => v < key a) ++ (l.filter (fun a => key a = v) ++ l.filter (fun a => key a < v)) := by
  induction l with
  | nil => rfl
  | cons a rest ih =>
    obtain ⟨below,sorted⟩ := List.pairwise_cons.mp sorted
    have tail := ih sorted
    rcases lt_trichotomy v (key a) with higher | rfl | lower
    · simpa [List.filter_cons,higher,higher.not_gt,higher.ne'] using tail
    · have none_higher : rest.filter (fun b => key a < key b) = [] :=
        List.filter_eq_nil_iff.mpr fun b listed => by simpa using below b listed
      rw [none_higher] at tail
      simpa [List.filter_cons,none_higher] using tail
    · have none_higher : rest.filter (fun b => v < key b) = [] :=
        List.filter_eq_nil_iff.mpr fun b listed => by simpa using (below b listed).trans lower.le
      have none_level : rest.filter (fun b => key b = v) = [] :=
        List.filter_eq_nil_iff.mpr fun b listed => by simpa using ((below b listed).trans_lt lower).ne
      rw [none_higher,none_level] at tail
      simpa [List.filter_cons,lower,lower.not_gt,lower.ne,none_higher,none_level] using tail

/-- An item is among the first of a sorted list exactly when it is among the first
    of its key once the higher keys are placed. -/
theorem mem_take_sorted {l : List α} (sorted : l.Pairwise (fun a b => key b ≤ key a)) {k : Nat} {x : α} :
    x ∈ l.take k ↔ x ∈ (l.filter (fun a => key a = key x)).take (k - l.countP (fun a => key x < key a)) := by
  have higher : x ∉ l.filter (fun a => key x < key a) := fun listed => by simpa using (List.mem_filter.mp listed).2
  have lower : x ∉ l.filter (fun a => key a < key x) := fun listed => by simpa using (List.mem_filter.mp listed).2
  conv_lhs => rw [split_at sorted (key x),List.take_append,List.take_append]
  rw [List.mem_append,List.mem_append,← List.countP_eq_length_filter]
  constructor
  · rintro (found | found | found)
    · exact absurd (List.mem_of_mem_take found) higher
    · exact found
    · exact absurd (List.mem_of_mem_take found) lower
  · exact fun found => .inr (.inl found)

theorem mem_take_descending {l : List α} {k : Nat} {x : α} :
    x ∈ (descending key l).take k ↔
      x ∈ (l.filter (fun a => key a = key x)).take (k - l.countP (fun a => key x < key a)) := by
  rw [mem_take_sorted (descending_sorted key l),filter_descending,(descending_perm key l).countP_eq]

/-- With no two items of one key, the place of an item is the number of higher ones. -/
theorem mem_take_strict {l : List α} (strict : l.Pairwise (fun a b => key b < key a)) {k : Nat} {x : α} :
    x ∈ l.take k ↔ x ∈ l ∧ l.countP (fun a => key x < key a) < k := by
  induction l generalizing k with
  | nil => simp
  | cons a rest ih =>
    obtain ⟨lower,strict⟩ := List.pairwise_cons.mp strict
    cases k with
    | zero => simp
    | succ k =>
      rw [List.take_succ_cons,List.mem_cons,List.mem_cons,ih strict,List.countP_cons]
      constructor
      · rintro (rfl | ⟨listed,place⟩)
        · have none_higher : rest.countP (fun b => key x < key b) = 0 :=
            List.countP_eq_zero.mpr fun b listed => by simpa using (lower b listed).le
          exact ⟨.inl rfl,by simp [none_higher]⟩
        · refine ⟨.inr listed,?_⟩
          split <;> omega
      · rintro ⟨rfl | listed,place⟩
        · exact .inl rfl
        · have higher : key x < key a := lower x listed
          simp only [higher,decide_true,if_true] at place
          exact .inr ⟨listed,by omega⟩

theorem countP_level (l : List α) (v : σ) :
    l.countP (fun a => v ≤ key a) = l.countP (fun a => v < key a) + (l.filter (fun a => key a = v)).length := by
  induction l with
  | nil => rfl
  | cons a rest ih =>
    rcases lt_trichotomy v (key a) with higher | rfl | lower
    · simp only [List.countP_cons,higher,higher.le,List.filter_cons,higher.ne',decide_true,decide_false,if_true,ih]
      simp only [Bool.false_eq_true,if_false]
      omega
    · simp only [List.countP_cons,le_refl,lt_irrefl,List.filter_cons,decide_true,decide_false,if_true,ih,List.length_cons]
      simp only [Bool.false_eq_true,if_false]
      omega
    · simp only [List.countP_cons,lower.not_ge,lower.not_gt,List.filter_cons,lower.ne,decide_false,ih]
      simp only [Bool.false_eq_true,if_false]
      omega

end rank

section screen
variable {α : Type} {admits wanted : α → Bool}

/-- To screen a list, cut it and then look for the wanted items finds the first of
    them exactly when each of these passes the screen before the cut. -/
theorem filter_take_filter_iff {l : List α} {j k : Nat} (bounded : j ≤ k) :
    ((l.filter admits).take j).filter wanted = (l.filter wanted).take k ↔
      ∀ before x after, l = before ++ x :: after → wanted x = true → before.countP wanted < k →
        admits x = true ∧ before.countP admits < j := by
  induction l generalizing j k with
  | nil => simp
  | cons a rest ih =>
    -- what the condition says of the first item and of the others
    have head : (∀ before x after, a :: rest = before ++ x :: after → wanted x = true → before.countP wanted < k →
        admits x = true ∧ before.countP admits < j) ↔ (wanted a = true → 0 < k → admits a = true ∧ 0 < j) ∧
          ∀ before x after, rest = before ++ x :: after → wanted x = true → (a :: before).countP wanted < k →
            admits x = true ∧ (a :: before).countP admits < j := by
      constructor
      · intro all
        exact ⟨fun want room => all [] a rest rfl want room,fun before x after same => all (a :: before) x after (by rw [same]; rfl)⟩
      · rintro ⟨first,others⟩ before x after same want room
        cases before with
        | nil =>
          obtain ⟨rfl,rfl⟩ := List.cons.inj same
          exact first want room
        | cons b before =>
          obtain ⟨rfl,rfl⟩ := List.cons.inj same
          exact others before x after rfl want room
    rw [head]
    by_cases admitted : admits a = true
    · by_cases want : wanted a = true
      · cases k with
        | zero =>
          have none_left : j = 0 := by omega
          simp [none_left]
        | succ k =>
          cases j with
          | zero => simp [want]
          | succ j =>
            have shorter : j ≤ k := by omega
            simpa [List.filter_cons,List.countP_cons,admitted,want] using ih shorter
      · cases j with
        | zero => simpa [List.filter_cons,List.countP_cons,admitted,want] using ih (Nat.zero_le k)
        | succ j =>
          have shorter : j ≤ k := by omega
          simpa [List.filter_cons,List.countP_cons,admitted,want] using ih shorter
    · by_cases want : wanted a = true
      · cases k with
        | zero =>
          have none_left : j = 0 := by omega
          simp [none_left]
        | succ k =>
          have apart : ((rest.filter admits).take j).filter wanted ≠ a :: (rest.filter wanted).take k := by
            intro same
            have listed : a ∈ ((rest.filter admits).take j).filter wanted := by rw [same]; exact List.mem_cons_self
            exact admitted (List.mem_filter.mp (List.mem_of_mem_take (List.mem_filter.mp listed).1)).2
          simp [admitted,want,apart]
      · simpa [List.filter_cons,List.countP_cons,admitted,want] using ih bounded
end screen

section heap
variable {α σ : Type} [LinearOrder σ] (key : α → σ) (ties : Shuffle α)

/-- The contents of a heap from the highest key down. -/
def arranged (heap : List α) : List α := descending key (ties.order heap)

theorem arranged_perm (heap : List α) : (arranged key ties heap).Perm heap := (descending_perm key _).trans (ties.perm heap)

/-- The least item of a heap. -/
def peek (heap : List α) : Option α := (arranged key ties heap).getLast?

/-- The heap without its least item. -/
def pop (heap : List α) : List α := (arranged key ties heap).dropLast

def push (x : α) (heap : List α) : List α := x :: heap

/-- Keep an item while there is room, later in place of the least one if it is higher. -/
def retain (limit : Nat) (heap : List α) (x : α) : List α :=
  if limit = 0 then heap else
  if heap.length < limit then push x heap else
  match peek key ties heap with
  | some least => if key least < key x then push x (pop key ties heap) else heap
  | none => heap

variable {key ties}

theorem peek_pop {heap : List α} {least : α} (found : peek key ties heap = some least) :
    (pop key ties heap ++ [least]).Perm heap ∧ ∀ x ∈ heap, key least ≤ key x := by
  have whole : pop key ties heap ++ [least] = arranged key ties heap := List.dropLast_append_getLast? least found
  have same := arranged_perm key ties heap
  rw [← whole] at same
  refine ⟨same,fun x listed => ?_⟩
  have sorted := descending_sorted key (ties.order heap)
  change (arranged key ties heap).Pairwise _ at sorted
  rw [← whole] at sorted
  rcases List.mem_append.mp (same.mem_iff.mpr listed) with kept | last
  · exact (List.pairwise_append.mp sorted).2.2 x kept least (List.mem_singleton_self least)
  · exact le_of_eq (congrArg key (List.mem_singleton.mp last)).symm

variable (key ties) in
theorem peek_of_full {limit : Nat} {heap : List α} (positive : limit ≠ 0) (full : ¬ heap.length < limit) :
    ∃ least, peek key ties heap = some least := by
  have long := (arranged_perm key ties heap).length_eq
  cases last : peek key ties heap with
  | some least => exact ⟨least,rfl⟩
  | none =>
    have empty : arranged key ties heap = [] := List.getLast?_eq_none_iff.mp last
    rw [empty] at long
    simp only [List.length_nil] at long
    omega

variable (key ties) in
/-- The four outcomes of keeping an item. -/
theorem retain_cases (limit : Nat) (heap : List α) (x : α) :
    (limit = 0 ∧ retain key ties limit heap x = heap) ∨
    (heap.length < limit ∧ retain key ties limit heap x = x :: heap) ∨
    (limit ≤ heap.length ∧ limit ≠ 0 ∧ ∃ least, peek key ties heap = some least ∧
      ((key x ≤ key least ∧ retain key ties limit heap x = heap) ∨
        (key least < key x ∧ retain key ties limit heap x = x :: pop key ties heap))) := by
  unfold retain
  by_cases zero : limit = 0
  · exact .inl ⟨zero,if_pos zero⟩
  by_cases room : heap.length < limit
  · exact .inr (.inl ⟨room,by rw [if_neg zero,if_pos room]; rfl⟩)
  obtain ⟨least,found⟩ := peek_of_full key ties zero room
  refine .inr (.inr ⟨not_lt.mp room,zero,least,found,?_⟩)
  rw [if_neg zero,if_neg room,found]
  by_cases higher : key least < key x
  · exact .inr ⟨higher,if_pos higher⟩
  · exact .inl ⟨not_lt.mp higher,if_neg higher⟩

/-- What a bounded heap holds of a stream: the rest fell out below a full heap. -/
structure Holds (key : α → σ) (limit : Nat) (stream kept : List α) : Prop where
  bounded : kept.length ≤ limit
  split : ∃ dropped, (kept ++ dropped).Perm stream ∧
    ∀ d ∈ dropped, kept.length = limit ∧ ∀ x ∈ kept, key d ≤ key x

theorem Holds.nil (limit : Nat) : Holds key limit [] [] := ⟨Nat.zero_le _,[],List.Perm.refl _,by simp⟩

theorem Holds.retain {limit : Nat} {stream kept : List α} (holds : Holds key limit stream kept) (x : α) :
    Holds key limit (stream ++ [x]) (retain key ties limit kept x) := by
  obtain ⟨bounded,dropped,same,low⟩ := holds
  have later : (kept ++ (dropped ++ [x])).Perm (stream ++ [x]) := by
    rw [← List.append_assoc]
    exact same.append_right [x]
  rcases retain_cases key ties limit kept x with ⟨zero,result⟩ | ⟨room,result⟩ | ⟨full,positive,least,found,rejected | replaced⟩
  · have empty : kept = [] := List.eq_nil_of_length_eq_zero (by omega)
    rw [result]
    exact ⟨bounded,dropped ++ [x],later,fun d _ => ⟨by rw [empty,zero]; rfl,by rw [empty]; simp⟩⟩
  · have none_dropped : dropped = [] := List.eq_nil_iff_forall_not_mem.mpr fun d listed => by
      have full := (low d listed).1
      omega
    subst none_dropped
    rw [result]
    refine ⟨room,[],?_,by simp⟩
    rw [List.append_nil] at same ⊢
    exact (List.Perm.cons x same).trans (List.perm_append_singleton x stream).symm
  · obtain ⟨lower,result⟩ := rejected
    rw [result]
    refine ⟨bounded,dropped ++ [x],later,fun d listed => ?_⟩
    rcases List.mem_append.mp listed with old | new
    · exact low d old
    · rw [List.mem_singleton.mp new]
      exact ⟨le_antisymm bounded full,fun y kept_y => lower.trans ((peek_pop found).2 y kept_y)⟩
  · obtain ⟨higher,result⟩ := replaced
    obtain ⟨parts,minimal⟩ := peek_pop found
    have sized := parts.length_eq
    rw [List.length_append,List.length_singleton] at sized
    rw [result]
    refine ⟨by rw [List.length_cons]; omega,least :: dropped,?_,fun d listed => ⟨by rw [List.length_cons]; omega,fun y kept_y => ?_⟩⟩
    · have moved : (pop key ties kept ++ least :: dropped).Perm stream := by
        have joined := parts.append_right dropped
        rw [List.append_assoc,List.singleton_append] at joined
        exact joined.trans same
      exact (List.Perm.cons x moved).trans (List.perm_append_singleton x stream).symm
    · have least_kept : least ∈ kept := parts.mem_iff.mp (by simp)
      have under : key d ≤ key least := by
        rcases List.mem_cons.mp listed with rfl | old
        · exact le_rfl
        · exact (low d old).2 least least_kept
      rcases List.mem_cons.mp kept_y with rfl | rest
      · exact under.trans higher.le
      · exact under.trans (minimal y (parts.mem_iff.mp (List.mem_append_left _ rest)))

variable (key ties) in
theorem holds_foldl (limit : Nat) (stream : List α) : Holds key limit stream (stream.foldl (retain key ties limit) []) := by
  induction stream using List.reverseRecOn with
  | nil => exact Holds.nil limit
  | append_singleton front x ih =>
    rw [List.foldl_append]
    exact ih.retain x

/-- The items above a kept one are kept. -/
theorem Holds.countP_eq {limit : Nat} {stream kept : List α} (holds : Holds key limit stream kept) {x : α} (listed : x ∈ kept) :
    stream.countP (fun a => key x < key a) = kept.countP (fun a => key x < key a) := by
  obtain ⟨_,dropped,same,low⟩ := holds
  have none_above : dropped.countP (fun a => key x < key a) = 0 :=
    List.countP_eq_zero.mpr fun d gone => by simpa using (low d gone).2 x listed
  rw [← same.countP_eq,List.countP_append,none_above,Nat.add_zero]

theorem Holds.countP_lt {limit : Nat} {stream kept : List α} (holds : Holds key limit stream kept) {x : α} (listed : x ∈ kept) :
    stream.countP (fun a => key x < key a) < limit := by
  rw [holds.countP_eq listed]
  exact (List.countP_lt_length_iff.mpr ⟨x,listed,by simp⟩).trans_le holds.bounded

theorem Holds.length_eq {limit : Nat} {stream kept : List α} (holds : Holds key limit stream kept) :
    kept.length = min limit stream.length := by
  obtain ⟨bounded,dropped,same,low⟩ := holds
  have total := same.length_eq
  rw [List.length_append] at total
  cases dropped with
  | nil =>
    simp only [List.length_nil,Nat.add_zero] at total
    omega
  | cons d rest =>
    have full := (low d List.mem_cons_self).1
    omega

/-- A kept item had room when it came. -/
theorem earlier_of_kept {limit : Nat} {stream : List α} {x : α} (listed : x ∈ stream.foldl (retain key ties limit) []) :
    ∃ before after, stream = before ++ x :: after ∧ before.countP (fun a => key x ≤ key a) < limit := by
  induction stream using List.reverseRecOn with
  | nil => cases listed
  | append_singleton front y ih =>
    rw [List.foldl_append] at listed
    change x ∈ retain key ties limit (front.foldl (retain key ties limit) []) y at listed
    have holds := holds_foldl key ties limit front
    have extend : x ∈ front.foldl (retain key ties limit) [] →
        ∃ before after, front ++ [y] = before ++ x :: after ∧ before.countP (fun a => key x ≤ key a) < limit := by
      intro kept
      obtain ⟨before,after,rfl,room⟩ := ih kept
      exact ⟨before,after ++ [y],by simp,room⟩
    rcases retain_cases key ties limit (front.foldl (retain key ties limit) []) y with
      ⟨_,result⟩ | ⟨room,result⟩ | ⟨_,_,least,found,⟨_,result⟩ | ⟨higher,result⟩⟩
    · exact extend (result ▸ listed)
    · rcases List.mem_cons.mp (result ▸ listed) with rfl | kept
      · refine ⟨front,[],rfl,?_⟩
        obtain ⟨_,dropped,same,low⟩ := holds
        have none_dropped : dropped = [] := List.eq_nil_iff_forall_not_mem.mpr fun d gone => by
          have full := (low d gone).1
          omega
        rw [none_dropped,List.append_nil] at same
        exact (List.countP_le_length.trans same.length_eq.symm.le).trans_lt room
      · exact extend kept
    · exact extend (result ▸ listed)
    · obtain ⟨parts,minimal⟩ := peek_pop found
      rcases List.mem_cons.mp (result ▸ listed) with rfl | kept
      · refine ⟨front,[],rfl,?_⟩
        have least_kept : least ∈ front.foldl (retain key ties limit) [] := parts.mem_iff.mp (by simp)
        obtain ⟨bounded,dropped,same,low⟩ := holds
        have none_above : dropped.countP (fun a => key x ≤ key a) = 0 :=
          List.countP_eq_zero.mpr fun d gone => by simpa using ((low d gone).2 least least_kept).trans_lt higher
        rw [← same.countP_eq,List.countP_append,none_above,Nat.add_zero]
        exact (List.countP_lt_length_iff.mpr ⟨least,least_kept,by simpa using higher⟩).trans_le bounded
      · exact extend (parts.mem_iff.mp (List.mem_append_left _ kept))

open Classical in
/-- The rearrangement that puts one item before all others. -/
noncomputable def favour (x : α) : Shuffle α :=
  ⟨fun l => l.filter (fun a => a = x) ++ l.filter (fun a => !decide (a = x)),fun l => List.filter_append_perm _ l⟩

theorem favour_of_mem {l : List α} {x : α} (listed : x ∈ l) : ∃ rest, (favour x).order l = x :: rest := by
  classical
  have inside : x ∈ l.filter (fun a => a = x) := List.mem_filter.mpr ⟨listed,by simp⟩
  cases only : l.filter (fun a => a = x) with
  | nil =>
    rw [only] at inside
    cases inside
  | cons first rest =>
    have same : first = x := by
      have first_listed : first ∈ l.filter (fun a => a = x) := by rw [only]; exact List.mem_cons_self
      simpa using (List.mem_filter.mp first_listed).2
    refine ⟨rest ++ l.filter (fun a => !decide (a = x)),?_⟩
    change l.filter (fun a => a = x) ++ _ = _
    rw [only,same]
    rfl

/-- A favoured item leaves the heap only when every other one is higher. -/
theorem mem_pop_favour {heap : List α} {x least : α} (listed : x ∈ heap) (found : peek key (favour x) heap = some least)
    (room : heap.countP (fun a => key x < key a) + 1 < heap.length) : x ∈ pop key (favour x) heap := by
  obtain ⟨parts,minimal⟩ := peek_pop found
  rcases List.mem_append.mp (parts.mem_iff.mpr listed) with kept | last
  · exact kept
  have same : x = least := List.mem_singleton.mp last
  subst same
  -- another item has the same key, and the favoured one stands before it
  have level : 1 < (heap.filter (fun a => key a = key x)).length := by
    rw [← List.countP_eq_length_filter]
    have total : heap.length = heap.countP (fun a => key x < key a) + heap.countP (fun a => key a = key x) := by
      rw [List.length_eq_countP_add_countP (fun a => key x < key a)]
      refine congrArg _ (List.countP_congr fun a kept => ?_)
      rcases (minimal a kept).lt_or_eq with higher | level
      · simp [higher,higher.ne']
      · simp [level]
    omega
  obtain ⟨rest,first⟩ := favour_of_mem listed
  have block : (arranged key (favour x) heap).filter (fun a => key a = key x) = x :: rest.filter (fun a => key a = key x) := by
    rw [arranged,filter_descending,first]
    simp
  have whole : pop key (favour x) heap ++ [x] = arranged key (favour x) heap := List.dropLast_append_getLast? x found
  have again : (pop key (favour x) heap).filter (fun a => key a = key x) ++ [x] = x :: rest.filter (fun a => key a = key x) := by
    rw [← block,← whole,List.filter_append]
    simp
  have sized : (x :: rest.filter (fun a => key a = key x)).length = (heap.filter (fun a => key a = key x)).length := by
    rw [← block]
    exact ((arranged_perm key (favour x) heap).filter _).length_eq
  cases front : (pop key (favour x) heap).filter (fun a => key a = key x) with
  | nil =>
    rw [front,List.nil_append] at again
    rw [← again] at sized
    simp only [List.length_singleton] at sized
    omega
  | cons y ys =>
    rw [front,List.cons_append] at again
    have same : y = x := (List.cons.inj again).1
    have kept : y ∈ (pop key (favour x) heap).filter (fun a => key a = key x) := by rw [front]; exact List.mem_cons_self
    exact same ▸ (List.mem_filter.mp kept).1

/-- With room when it comes and enough places after all, an item can be kept. -/
theorem kept_of_earlier {limit : Nat} {before after : List α} {x : α} (room : before.countP (fun a => key x ≤ key a) < limit)
    (places : (before ++ x :: after).countP (fun a => key x < key a) < limit) :
    x ∈ (before ++ x :: after).foldl (retain key (favour x) limit) [] := by
  have entered : x ∈ (before ++ [x]).foldl (retain key (favour x) limit) [] := by
    rw [List.foldl_append]
    change x ∈ retain key (favour x) limit (before.foldl (retain key (favour x) limit) []) x
    have holds := holds_foldl key (favour x) limit before
    rcases retain_cases key (favour x) limit (before.foldl (retain key (favour x) limit) []) x with
      ⟨zero,_⟩ | ⟨_,result⟩ | ⟨full,_,least,found,⟨lower,_⟩ | ⟨_,result⟩⟩
    · omega
    · rw [result]
      exact List.mem_cons_self
    · obtain ⟨_,minimal⟩ := peek_pop found
      obtain ⟨_,dropped,same,_⟩ := holds
      have all : (before.foldl (retain key (favour x) limit) []).countP (fun a => key x ≤ key a) =
          (before.foldl (retain key (favour x) limit) []).length :=
        List.countP_eq_length.mpr fun a kept => by simpa using lower.trans (minimal a kept)
      have split := same.countP_eq (fun a => key x ≤ key a)
      rw [List.countP_append,all] at split
      omega
    · rw [result]
      exact List.mem_cons_self
  have step : ∀ (front : List α) (y : α), x ∈ front.foldl (retain key (favour x) limit) [] →
      (front ++ [y]).countP (fun a => key x < key a) < limit → x ∈ (front ++ [y]).foldl (retain key (favour x) limit) [] := by
    intro front y kept places
    rw [List.foldl_append]
    change x ∈ retain key (favour x) limit (front.foldl (retain key (favour x) limit) []) y
    have holds := holds_foldl key (favour x) limit front
    have above := holds.countP_eq kept
    rcases retain_cases key (favour x) limit (front.foldl (retain key (favour x) limit) []) y with
      ⟨_,result⟩ | ⟨_,result⟩ | ⟨full,_,least,found,⟨_,result⟩ | ⟨higher,result⟩⟩
    · rwa [result]
    · rw [result]
      exact List.mem_cons_of_mem _ kept
    · rwa [result]
    · rw [result]
      refine List.mem_cons_of_mem _ ?_
      obtain ⟨parts,minimal⟩ := peek_pop found
      by_cases least_is : key least < key x
      · rcases List.mem_append.mp (parts.mem_iff.mpr kept) with stays | last
        · exact stays
        · rw [List.mem_singleton.mp last] at least_is
          exact absurd least_is (lt_irrefl _)
      · refine mem_pop_favour kept found ?_
        have beyond : key x < key y := lt_of_le_of_lt (not_lt.mp least_is) higher
        have bounded := holds.bounded
        rw [List.countP_append,above] at places
        simp only [List.countP_singleton,beyond,decide_true,if_true] at places
        omega
  induction after using List.reverseRecOn with
  | nil => exact entered
  | append_singleton rest y ih =>
    have shorter : (before ++ x :: rest).countP (fun a => key x < key a) < limit := by
      refine lt_of_le_of_lt (List.Sublist.countP_le ?_) places
      simp
    have grown := step (before ++ x :: rest) y (ih shorter) (by simpa using places)
    simpa using grown

theorem mem_kept {limit : Nat} {stream : List α} {x : α} :
    x ∈ arranged key ties (stream.foldl (retain key ties limit) []) ↔ x ∈ stream.foldl (retain key ties limit) [] :=
  (arranged_perm key ties _).mem_iff

theorem Holds.subset {limit : Nat} {stream kept : List α} (holds : Holds key limit stream kept) {x : α} (listed : x ∈ kept) :
    x ∈ stream := by
  obtain ⟨_,dropped,same,_⟩ := holds
  exact same.mem_iff.mp (List.mem_append_left _ listed)

end heap

section best
variable {α σ : Type} [LinearOrder σ] {key : α → σ} {limit : Nat} {all listed : List α}

/-- The best items of a list from the highest key down, with none left out while
    there is room or in favour of a lower one. -/
structure Top (key : α → σ) (limit : Nat) (all best : List α) : Prop where
  sorted : best.Pairwise (fun a b => key b ≤ key a)
  holds : Holds key limit all best

/-- In a sorted list fewer than the limit stand above what a cut keeps. -/
theorem countP_lt_of_mem_take (sorted : listed.Pairwise (fun a b => key b ≤ key a)) {x : α} (kept : x ∈ listed.take limit) {v : σ}
    (lower : key x < v) : listed.countP (fun a => v ≤ key a) < limit := by
  obtain ⟨before,after,parts⟩ := List.append_of_mem kept
  have whole : listed = before ++ x :: (after ++ listed.drop limit) := by
    conv_lhs => rw [← List.take_append_drop limit listed,parts]
    simp
  have room : before.length < limit := by
    have length := congrArg List.length parts
    simp only [List.length_take,List.length_append,List.length_cons] at length
    omega
  rw [whole] at sorted
  obtain ⟨below,_⟩ := List.pairwise_cons.mp (List.pairwise_append.mp sorted).2.1
  have none_behind : (x :: (after ++ listed.drop limit)).countP (fun a => v ≤ key a) = 0 := by
    refine List.countP_eq_zero.mpr fun a behind => ?_
    have under : key a ≤ key x := by
      rcases List.mem_cons.mp behind with rfl | later
      · exact le_rfl
      · exact below a later
    simpa using under.trans_lt lower
  rw [whole,List.countP_append,none_behind,Nat.add_zero]
  exact List.countP_le_length.trans_lt room

/-- The first of a sorted list are the best of another list exactly when they belong
    to it, and enough of the sorted list is at least as high as whatever it misses. -/
theorem top_take_iff (sorted : listed.Pairwise (fun a b => key b ≤ key a)) (distinct : listed.Nodup) (nodup : all.Nodup) :
    Top key limit all (listed.take limit) ↔
      (∀ x ∈ listed.take limit, x ∈ all) ∧ ∀ x ∈ all, x ∉ listed → limit ≤ listed.countP (fun a => key x ≤ key a) := by
  constructor
  · rintro ⟨_,_,dropped,same,low⟩
    refine ⟨fun x kept => same.mem_iff.mp (List.mem_append_left _ kept),fun x member missed => ?_⟩
    have gone : x ∈ dropped := (List.mem_append.mp (same.mem_iff.mpr member)).resolve_left fun kept => missed (List.mem_of_mem_take kept)
    obtain ⟨full,below⟩ := low x gone
    calc limit = (listed.take limit).length := full.symm
      _ = (listed.take limit).countP (fun a => key x ≤ key a) :=
        (List.countP_eq_length.mpr fun a kept => by simpa using below a kept).symm
      _ ≤ listed.countP (fun a => key x ≤ key a) := (List.take_sublist limit listed).countP_le
  · classical
    rintro ⟨inside,enough⟩
    refine ⟨sorted.sublist (List.take_sublist limit listed),List.length_take_le limit listed,
      all.filter (fun x => x ∉ listed.take limit),?_,fun x gone => ?_⟩
    · have apart : (listed.take limit ++ all.filter (fun x => x ∉ listed.take limit)).Nodup :=
        List.nodup_append.mpr ⟨distinct.sublist (List.take_sublist limit listed),nodup.filter _,fun x kept y gone same => by
          subst same
          exact (by simpa using (List.mem_filter.mp gone).2 : x ∉ listed.take limit) kept⟩
      refine (List.perm_ext_iff_of_nodup apart nodup).mpr fun x => ?_
      rw [List.mem_append,List.mem_filter]
      constructor
      · rintro (kept | ⟨member,_⟩)
        · exact inside x kept
        · exact member
      · intro member
        by_cases kept : x ∈ listed.take limit
        · exact .inl kept
        · exact .inr ⟨member,by simpa using kept⟩
    · obtain ⟨member,out⟩ := List.mem_filter.mp gone
      have out : x ∉ listed.take limit := by simpa using out
      by_cases behind : x ∈ listed
      · -- a listed item that the cut drops stands behind all that it keeps
        have whole := List.take_append_drop limit listed
        have later : x ∈ listed.drop limit := (List.mem_append.mp (whole.symm ▸ behind)).resolve_left out
        refine ⟨?_,fun a kept => ?_⟩
        · have long := List.length_pos_of_mem later
          rw [List.length_drop] at long
          rw [List.length_take]
          omega
        · rw [← whole] at sorted
          exact (List.pairwise_append.mp sorted).2.2 a kept x later
      · have many := enough x member behind
        refine ⟨?_,fun a kept => ?_⟩
        · have long := many.trans List.countP_le_length
          rw [List.length_take]
          omega
        · by_contra lower
          have few := countP_lt_of_mem_take sorted kept (not_le.mp lower)
          omega

/-- The first of a sorted list are the best of what it lists. -/
theorem top_take (sorted : listed.Pairwise (fun a b => key b ≤ key a)) (same : listed.Perm all) : Top key limit all (listed.take limit) := by
  have whole := List.take_append_drop limit listed
  refine ⟨sorted.sublist (List.take_sublist limit listed),List.length_take_le limit listed,listed.drop limit,?_,
    fun d later => ⟨?_,fun x kept => ?_⟩⟩
  · rw [whole]
    exact same
  · have long := List.length_pos_of_mem later
    rw [List.length_drop] at long
    rw [List.length_take]
    omega
  · rw [← whole] at sorted
    exact (List.pairwise_append.mp sorted).2.2 x kept d later

/-- A change that no key shows does not change which items are the best. -/
theorem Top.map {β : Type} {key' : β → σ} {change : α → β} {best : List α} (top : Top key limit all best)
    (same : ∀ x ∈ all, key' (change x) = key x) : Top key' limit (all.map change) (best.map change) := by
  obtain ⟨sorted,bounded,dropped,parts,low⟩ := top
  have kept : ∀ x ∈ best, key' (change x) = key x := fun x member => same x (parts.mem_iff.mp (List.mem_append_left _ member))
  have lost : ∀ x ∈ dropped, key' (change x) = key x := fun x member => same x (parts.mem_iff.mp (List.mem_append_right _ member))
  refine ⟨?_,by rw [List.length_map]; exact bounded,dropped.map change,?_,?_⟩
  · refine List.pairwise_map.mpr (sorted.imp_of_mem fun {a b} first second lower => ?_)
    rw [kept a first,kept b second]
    exact lower
  · rw [← List.map_append]
    exact parts.map change
  · intro d gone
    obtain ⟨x,member,rfl⟩ := List.mem_map.mp gone
    obtain ⟨full,below⟩ := low x member
    refine ⟨by rw [List.length_map]; exact full,fun y listed => ?_⟩
    obtain ⟨z,held,rfl⟩ := List.mem_map.mp listed
    rw [kept z held,lost x member]
    exact below z held

/-- The items can be told from their changed forms, so the best of these are those of the best. -/
theorem top_map_iff {β : Type} {key' : β → σ} {change : α → β} (back : β → α) {best : List α}
    (same : ∀ x ∈ all, key' (change x) = key x) (inverse : ∀ x ∈ all, back (change x) = x) (inverse' : ∀ x ∈ best, back (change x) = x) :
    Top key' limit (all.map change) (best.map change) ↔ Top key limit all best := by
  constructor
  · intro top
    have returned : (all.map change).map back = all := by
      rw [List.map_map]
      exact (List.map_congr_left inverse).trans (List.map_id all)
    have returned' : (best.map change).map back = best := by
      rw [List.map_map]
      exact (List.map_congr_left inverse').trans (List.map_id best)
    have undone : Top key limit ((all.map change).map back) ((best.map change).map back) := top.map fun y member => by
      obtain ⟨x,listed,rfl⟩ := List.mem_map.mp member
      rw [inverse x listed,same x listed]
    rw [returned,returned'] at undone
    exact undone
  · exact fun top => top.map same

/-- A cut that keeps only wanted items cuts the wanted ones. -/
theorem take_filter_of_all {wanted : α → Bool} {l : List α} (all : ∀ x ∈ l.take limit, wanted x = true) :
    l.take limit = (l.filter wanted).take limit := by
  have first : (l.take limit).filter wanted = l.take limit := List.filter_eq_self.mpr all
  have whole : l.filter wanted = l.take limit ++ (l.drop limit).filter wanted := by
    conv_lhs => rw [← List.take_append_drop limit l,List.filter_append,first]
  rw [whole]
  by_cases room : l.length ≤ limit
  · rw [List.drop_eq_nil_of_le room,List.filter_nil,List.append_nil,List.take_take,Nat.min_self]
  · rw [List.take_append_of_le_length (by rw [List.length_take]; omega),List.take_take,Nat.min_self]
end best

section merge
variable {α σ : Type} [LinearOrder σ] [OrderBot σ] (key : α → σ) (ties : Shuffle α)

/-- A stable sort by a partial comparison. The least key compares with nothing, and
    with such a key in the list the result is some rearrangement. -/
def sortBy (l : List α) : List α := if ∃ a ∈ l, key a = ⊥ then ties.order l else descending key l

theorem sortBy_perm (l : List α) : (sortBy key ties l).Perm l := by
  unfold sortBy
  split
  · exact ties.perm l
  · exact descending_perm key l

@[simp] theorem mem_sortBy {l : List α} {x : α} : x ∈ sortBy key ties l ↔ x ∈ l := (sortBy_perm key ties l).mem_iff

/-- The first of some items and the best ones of a stream together. -/
def merged (limit : Nat) (front stream : List α) : List α :=
  (sortBy key ties (front ++ arranged key ties (stream.foldl (retain key ties limit) []))).take limit

/-- The items in front that an item of the stream cannot pass. -/
def ahead (front : List α) (x : α) : Nat := if ∃ a ∈ front, key a = ⊥ then 0 else front.countP (fun a => key x ≤ key a)

variable {key ties}

theorem exists_bot_append {limit : Nat} {front stream : List α} (comparable : ∀ a ∈ stream, key a ≠ ⊥) :
    (∃ a ∈ front ++ arranged key ties (stream.foldl (retain key ties limit) []), key a = ⊥) ↔ ∃ a ∈ front, key a = ⊥ := by
  constructor
  · rintro ⟨a,listed,bot⟩
    rcases List.mem_append.mp listed with first | kept
    · exact ⟨a,first,bot⟩
    · exact absurd bot (comparable a ((holds_foldl key ties limit stream).subset (mem_kept.mp kept)))
  · rintro ⟨a,first,bot⟩
    exact ⟨a,List.mem_append_left _ first,bot⟩

/-- Which items of the stream can be among the first, by counts alone. -/
theorem mem_merged_iff {limit : Nat} {front stream : List α} {x : α} (apart : x ∉ front) (comparable : ∀ a ∈ stream, key a ≠ ⊥) :
    (∃ ties, x ∈ merged key ties limit front stream) ↔
      ahead key front x + stream.countP (fun a => key x < key a) < limit ∧
        ∃ before after, stream = before ++ x :: after ∧ before.countP (fun a => key x ≤ key a) < limit := by
  constructor
  · rintro ⟨ties,shown⟩
    have listed := (mem_sortBy key ties).mp (List.mem_of_mem_take shown)
    have kept := mem_kept.mp ((List.mem_append.mp listed).resolve_left apart)
    have holds := holds_foldl key ties limit stream
    refine ⟨?_,earlier_of_kept kept⟩
    unfold ahead
    unfold merged sortBy at shown
    by_cases wild : ∃ a ∈ front, key a = ⊥
    · rw [if_pos wild,Nat.zero_add]
      exact holds.countP_lt kept
    · rw [if_neg wild]
      rw [if_neg (mt (exists_bot_append comparable).mp wild),mem_take_descending,List.filter_append,List.take_append,
        List.mem_append] at shown
      have behind := shown.resolve_left fun found => apart (List.mem_filter.mp (List.mem_of_mem_take found)).1
      have place := List.length_pos_of_mem behind
      rw [List.length_take,List.countP_append,(arranged_perm key ties _).countP_eq,← holds.countP_eq kept] at place
      rw [countP_level]
      omega
  · rintro ⟨places,before,after,rfl,room⟩
    refine ⟨favour x,?_⟩
    have kept := kept_of_earlier room (lt_of_le_of_lt (Nat.le_add_left _ _) places)
    have holds := holds_foldl key (favour x) limit (before ++ x :: after)
    unfold merged sortBy
    unfold ahead at places
    by_cases wild : ∃ a ∈ front, key a = ⊥
    · rw [if_pos ((exists_bot_append comparable).mpr wild)]
      obtain ⟨rest,first⟩ := favour_of_mem (List.mem_append_right front (mem_kept.mpr kept))
      rw [first]
      cases limit with
      | zero => omega
      | succ n => exact List.mem_cons_self
    · rw [if_neg wild,countP_level] at places
      rw [if_neg (mt (exists_bot_append comparable).mp wild),mem_take_descending,List.filter_append,List.take_append,
        List.mem_append]
      obtain ⟨rest,first⟩ := favour_of_mem kept
      have block : (arranged key (favour x) ((before ++ x :: after).foldl (retain key (favour x) limit) [])).filter
          (fun a => key a = key x) = x :: rest.filter (fun a => key a = key x) := by
        rw [arranged,filter_descending,first]
        simp
      rw [block,List.countP_append,(arranged_perm key (favour x) _).countP_eq,← holds.countP_eq kept]
      refine .inr ?_
      have left : 0 < limit - (front.countP (fun a => key x < key a) + (before ++ x :: after).countP (fun a => key x < key a)) -
          (front.filter (fun a => key a = key x)).length := by omega
      obtain ⟨n,more⟩ := Nat.exists_eq_succ_of_ne_zero left.ne'
      rw [more]
      exact List.mem_cons_self

end merge
end MemoryEngine.Ranking
