import Mathlib.Logic.Relation
import Mathlib.Data.List.Chain
import Mathlib.Data.List.Nodup
import Mathlib.Data.List.Perm.Subperm

/-! Breadth-first search with a queue. One search marks a vertex when it enters the queue;
the other lists it when it leaves the queue and passes over what is listed already. Both end
with the vertices that can be reached, each of them once. -/

namespace MemoryEngine.GraphSearch

universe u

variable {α : Type u}

def Reaches (next : α → List α) : α → α → Prop := Relation.ReflTransGen fun x y => y ∈ next x

/-- A set that holds the start, only what can be reached, and all ends of its members is
    what can be reached. -/
theorem reaches_iff {next : α → List α} {start : α} {visited : List α} (root : start ∈ visited)
    (reached : ∀ x ∈ visited, Reaches next start x) (closed : ∀ x ∈ visited, ∀ y ∈ next x, y ∈ visited) (x : α) :
    x ∈ visited ↔ Reaches next start x := by
  refine ⟨reached x,fun path => ?_⟩
  induction path with
  | refl => exact root
  | tail _ edge ih => exact closed _ ih _ edge

section chains

def Parent (parent : α → Option α) (x y : α) : Prop := parent x = some y

variable {parent : α → Option α}

/-- The vertices of a climb without circles: each is the parent of the one before, and the
    last one has no parent. -/
structure Chain (parent : α → Option α) (start : α) (all : List α) : Prop where
  first : all.head? = some start
  linked : all.IsChain (Parent parent)
  last : ∀ x ∈ all.getLast?, parent x = none

theorem Chain.nodup {start : α} {all : List α} (chain : Chain parent start all) (acyclic : ∀ x, ¬ Relation.TransGen (Parent parent) x x) :
    all.Nodup := by
  have longer : all.IsChain (Relation.TransGen (Parent parent)) := chain.linked.imp fun _ _ => .single
  refine (List.isChain_iff_pairwise.mp longer).imp ?_
  rintro a _ path rfl
  exact acyclic a path

theorem Chain.mem_iff {start : α} {all : List α} (chain : Chain parent start all) (x : α) :
    x ∈ all ↔ Relation.ReflTransGen (Parent parent) start x := by
  have same : Relation.ReflTransGen (Parent parent) start x ↔ Reaches (fun y => (parent y).toList) start x := by
    unfold Reaches Parent
    simp only [Option.mem_toList]
  rw [same]
  have root : start ∈ all := List.mem_of_mem_head? chain.first
  refine reaches_iff root (fun y member => ?_) (fun y member z above => ?_) x
  · obtain ⟨front,back,split⟩ := List.append_of_mem member
    subst split
    have longer : (front ++ y :: back).IsChain (Relation.TransGen (Parent parent)) := chain.linked.imp fun _ _ => .single
    have pairs := List.pairwise_append.mp (List.isChain_iff_pairwise.mp longer)
    cases front with
    | nil =>
      have here : y = start := Option.some.inj chain.first
      rw [here]
      exact .refl
    | cons head rest =>
      have here : head = start := Option.some.inj chain.first
      have path := (pairs.2.2 head List.mem_cons_self y List.mem_cons_self).to_reflTransGen
      rw [here] at path
      unfold Reaches
      unfold Parent at path
      simpa only [Option.mem_toList] using path
  · obtain ⟨front,back,split⟩ := List.append_of_mem member
    subst split
    rw [Option.mem_toList] at above
    cases back with
    | nil =>
      have topmost := chain.last y (by simp)
      rw [above] at topmost
      cases topmost
    | cons next back =>
      have step : Parent parent y next := by
        have tail := (List.isChain_append.mp chain.linked).2.1
        exact (List.isChain_cons_cons.mp tail).1
      rw [Parent,above] at step
      cases step
      simp

end chains

variable [DecidableEq α]

section marking

/-- The vertices still to expand and those marked so far. -/
structure Marks (α : Type u) where
  queue : List α
  visited : List α

/-- Queue a vertex that was not met before. -/
def mark (marks : Marks α) (x : α) : Marks α :=
  if x ∈ marks.visited then marks else ⟨marks.queue ++ [x],marks.visited ++ [x]⟩

def spread (next : α → List α) : Nat → Marks α → Option (List α)
  | 0,_ => none
  | fuel + 1,marks =>
    match marks.queue with
    | [] => some marks.visited
    | x :: queue => spread next fuel ((next x).foldl mark ⟨queue,marks.visited⟩)

/-- More fuel changes nothing once the search has ended. -/
theorem spread_more {next : α → List α} {fuel : Nat} {marks : Marks α} {visited : List α} (ended : spread next fuel marks = some visited)
    (extra : Nat) : spread next (fuel + extra) marks = some visited := by
  induction fuel generalizing marks with
  | zero => cases ended
  | succ fuel ih =>
    rw [Nat.succ_add]
    obtain ⟨queue,_⟩ := marks
    cases queue with
    | nil => exact ended
    | cons x queue => exact ih ended

theorem marks_foldl (items : List α) (marks : Marks α) (distinct : marks.visited.Nodup) :
    ∃ met, items.foldl mark marks = ⟨marks.queue ++ met,marks.visited ++ met⟩ ∧ (marks.visited ++ met).Nodup ∧
      (∀ y ∈ met, y ∈ items) ∧ ∀ y ∈ items, y ∈ marks.visited ++ met := by
  induction items generalizing marks with
  | nil => exact ⟨[],by simp,by simpa using distinct,by simp,by simp⟩
  | cons item rest ih =>
    rw [List.foldl_cons]
    by_cases known : item ∈ marks.visited
    · rw [mark,if_pos known]
      obtain ⟨met,folded,nodup,from_,all⟩ := ih marks distinct
      refine ⟨met,folded,nodup,fun y member => List.mem_cons_of_mem _ (from_ y member),fun y member => ?_⟩
      rcases List.mem_cons.mp member with rfl | later
      · exact List.mem_append_left _ known
      · exact all y later
    · rw [mark,if_neg known]
      have wider : (marks.visited ++ [item]).Nodup := by
        rw [← List.concat_eq_append]
        exact List.Nodup.concat known distinct
      obtain ⟨met,folded,nodup,from_,all⟩ := ih ⟨marks.queue ++ [item],marks.visited ++ [item]⟩ wider
      simp only [List.append_assoc,List.singleton_append] at folded nodup all
      refine ⟨item :: met,folded,nodup,fun y member => ?_,fun y member => ?_⟩
      · rcases List.mem_cons.mp member with rfl | later
        · exact List.mem_cons_self
        · exact List.mem_cons_of_mem _ (from_ y later)
      · rcases List.mem_cons.mp member with rfl | later
        · exact List.mem_append_right _ List.mem_cons_self
        · exact all y later

variable {next : α → List α} {start : α}

private structure Marked (next : α → List α) (start : α) (marks : Marks α) : Prop where
  distinct : marks.visited.Nodup
  root : start ∈ marks.visited
  reached : ∀ x ∈ marks.visited, Reaches next start x
  waiting : ∀ x ∈ marks.queue, x ∈ marks.visited
  done : ∀ x ∈ marks.visited, x ∉ marks.queue → ∀ y ∈ next x, y ∈ marks.visited

private theorem Marked.expand {x : α} {queue visited : List α} (marked : Marked next start ⟨x :: queue,visited⟩) :
    Marked next start ((next x).foldl mark ⟨queue,visited⟩) := by
  obtain ⟨met,folded,nodup,from_,all⟩ := marks_foldl (next x) ⟨queue,visited⟩ marked.distinct
  rw [folded]
  have here : Reaches next start x := marked.reached x (marked.waiting x List.mem_cons_self)
  refine ⟨nodup,List.mem_append_left _ marked.root,fun y member => ?_,fun y member => ?_,fun y member gone z edge => ?_⟩
  · rcases List.mem_append.mp member with old | new
    · exact marked.reached y old
    · exact here.tail (from_ y new)
  · rcases List.mem_append.mp member with old | new
    · exact List.mem_append_left _ (marked.waiting y (List.mem_cons_of_mem _ old))
    · exact List.mem_append_right _ new
  · have apart := not_or.mp fun listed => gone (List.mem_append.mpr listed)
    rcases List.mem_append.mp member with old | new
    · by_cases same : y = x
      · subst same
        exact all z edge
      · refine List.mem_append_left _ (marked.done y old (fun listed => ?_) z edge)
        rcases List.mem_cons.mp listed with rfl | later
        · exact same rfl
        · exact apart.1 later
    · exact absurd new apart.2

/-- Among finitely many vertices the search ends, and it marks what the start reaches. -/
private theorem Marked.spread_total {vertices : List α} (inside : ∀ x, Reaches next start x → x ∈ vertices) {fuel : Nat}
    {marks : Marks α} (marked : Marked next start marks)
    (enough : marks.queue.length + vertices.length < fuel + marks.visited.length) :
    ∃ visited, spread next fuel marks = some visited ∧ visited.Nodup ∧ ∀ x, x ∈ visited ↔ Reaches next start x := by
  induction fuel generalizing marks with
  | zero =>
    have within : marks.visited.length ≤ vertices.length :=
      (marked.distinct.subperm fun x member => inside x (marked.reached x member)).length_le
    omega
  | succ fuel ih =>
    obtain ⟨waiting,visited⟩ := marks
    cases waiting with
    | nil =>
      exact ⟨visited,rfl,marked.distinct,
        reaches_iff marked.root marked.reached fun x member => marked.done x member List.not_mem_nil⟩
    | cons x queue =>
      have expanded := marked.expand
      obtain ⟨met,folded,_⟩ := marks_foldl (next x) ⟨queue,visited⟩ marked.distinct
      refine ih expanded ?_
      simp only [List.length_cons] at enough
      rw [folded]
      simp only [List.length_append]
      omega

theorem spread_exact (vertices : List α) (inside : ∀ x, Reaches next start x → x ∈ vertices) {fuel : Nat}
    (enough : vertices.length < fuel) :
    ∃ visited, spread next fuel ⟨[start],[start]⟩ = some visited ∧ visited.Nodup ∧ ∀ x, x ∈ visited ↔ Reaches next start x := by
  have first : Marked next start ⟨[start],[start]⟩ := by
    refine ⟨List.nodup_singleton start,List.mem_singleton_self start,fun x member => ?_,fun x member => member,fun x member gone => ?_⟩
    · rw [List.mem_singleton.mp member]
      exact .refl
    · exact absurd member gone
  have room : 1 + vertices.length < fuel + 1 := by omega
  exact first.spread_total inside room

end marking

section listing

/-- The ends of the arcs that leave a vertex. -/
def ends (arcs : List (α × α)) (x : α) : List α := (arcs.filter fun arc => arc.1 = x).map Prod.snd

/-- List the vertices of the queue that are not listed yet, each followed by a look at its ends. -/
def visit (next : α → List α) : Nat → List α → List α → Option (List α)
  | 0,_,_ => none
  | _ + 1,[],result => some result
  | fuel + 1,x :: queue,result =>
    if x ∈ result then visit next fuel queue result else visit next fuel (queue ++ next x) (result ++ [x])

theorem visit_more {next : α → List α} {fuel : Nat} {queue result all : List α} (ended : visit next fuel queue result = some all)
    (extra : Nat) : visit next (fuel + extra) queue result = some all := by
  induction fuel generalizing queue result with
  | zero => cases ended
  | succ fuel ih =>
    rw [Nat.succ_add]
    cases queue with
    | nil => exact ended
    | cons x queue =>
      rw [visit] at ended ⊢
      split at ended
      · rename_i known
        rw [if_pos known]
        exact ih ended
      · rename_i new
        rw [if_neg new]
        exact ih ended

variable {arcs : List (α × α)} {start : α}

theorem mem_ends {x y : α} : y ∈ ends arcs x ↔ (x,y) ∈ arcs := by
  simp [ends]

/-- The arcs that leave a vertex not listed so far. -/
private def ahead (arcs : List (α × α)) (result : List α) : Nat := arcs.countP fun arc => arc.1 ∉ result

private theorem ahead_append (arcs : List (α × α)) {x : α} {result : List α} (new : x ∉ result) :
    ahead arcs (result ++ [x]) + (ends arcs x).length = ahead arcs result := by
  unfold ahead ends
  rw [List.length_map,← List.countP_eq_length_filter]
  induction arcs with
  | nil => rfl
  | cons arc rest ih =>
    simp only [List.countP_cons]
    by_cases leaves : arc.1 = x
    · have unlisted : arc.1 ∉ result := leaves ▸ new
      simp [leaves] at ih ⊢
      simp [new]
      omega
    · by_cases listed : arc.1 ∈ result
      · simp [leaves,listed]
        simpa using ih
      · simp [leaves,listed]
        simp at ih
        omega

private structure Listed (arcs : List (α × α)) (start : α) (queue result : List α) : Prop where
  distinct : result.Nodup
  root : start ∈ result ∨ start ∈ queue
  reached : ∀ x, x ∈ result ∨ x ∈ queue → Reaches (ends arcs) start x
  done : ∀ x ∈ result, ∀ y ∈ ends arcs x, y ∈ result ∨ y ∈ queue

private theorem Listed.skip {x : α} {queue result : List α} (listed : Listed arcs start (x :: queue) result) (known : x ∈ result) :
    Listed arcs start queue result := by
  have move : ∀ y, y ∈ result ∨ y ∈ x :: queue → y ∈ result ∨ y ∈ queue := by
    rintro y (old | waiting)
    · exact .inl old
    · rcases List.mem_cons.mp waiting with rfl | later
      · exact .inl known
      · exact .inr later
  exact ⟨listed.distinct,move start listed.root,fun y held => listed.reached y (held.imp id (List.mem_cons_of_mem _)),
    fun y member z edge => move z (listed.done y member z edge)⟩

private theorem Listed.expand {x : α} {queue result : List α} (listed : Listed arcs start (x :: queue) result) (new : x ∉ result) :
    Listed arcs start (queue ++ ends arcs x) (result ++ [x]) := by
  have here : Reaches (ends arcs) start x := listed.reached x (.inr List.mem_cons_self)
  have move : ∀ y, y ∈ result ∨ y ∈ x :: queue → y ∈ result ++ [x] ∨ y ∈ queue ++ ends arcs x := by
    rintro y (old | waiting)
    · exact .inl (List.mem_append_left _ old)
    · rcases List.mem_cons.mp waiting with rfl | later
      · exact .inl (List.mem_append_right _ (List.mem_singleton_self _))
      · exact .inr (List.mem_append_left _ later)
  refine ⟨?_,move start listed.root,?_,fun y member z edge => ?_⟩
  · rw [← List.concat_eq_append]
    exact List.Nodup.concat new listed.distinct
  · rintro y (member | member)
    · rcases List.mem_append.mp member with old | single
      · exact listed.reached y (.inl old)
      · exact List.mem_singleton.mp single ▸ here
    · rcases List.mem_append.mp member with old | edge
      · exact listed.reached y (.inr (List.mem_cons_of_mem _ old))
      · exact here.tail edge
  · rcases List.mem_append.mp member with old | single
    · exact move z (listed.done y old z edge)
    · rw [List.mem_singleton.mp single] at edge
      exact .inr (List.mem_append_right _ edge)

/-- The arcs of a vertex are queued once, when it is listed, so the search ends, and it lists
    what the start reaches. -/
private theorem Listed.visit_total {fuel : Nat} {queue result : List α} (listed : Listed arcs start queue result)
    (enough : queue.length + ahead arcs result < fuel) :
    ∃ all, visit (ends arcs) fuel queue result = some all ∧ all.Nodup ∧ ∀ x, x ∈ all ↔ Reaches (ends arcs) start x := by
  induction fuel generalizing queue result with
  | zero => omega
  | succ fuel ih =>
    cases queue with
    | nil =>
      refine ⟨result,rfl,listed.distinct,reaches_iff ?_ (fun x member => listed.reached x (.inl member)) fun x member y edge => ?_⟩
      · exact listed.root.resolve_right List.not_mem_nil
      · exact (listed.done x member y edge).resolve_right List.not_mem_nil
    | cons x queue =>
      rw [List.length_cons] at enough
      by_cases known : x ∈ result
      · rw [visit,if_pos known]
        exact ih (listed.skip known) (by omega)
      · rw [visit,if_neg known]
        refine ih (listed.expand known) ?_
        have fewer := ahead_append arcs known
        rw [List.length_append]
        omega

theorem visit_exact (arcs : List (α × α)) (start : α) {fuel : Nat} (enough : arcs.length + 1 < fuel) :
    ∃ all, visit (ends arcs) fuel [start] [] = some all ∧ all.Nodup ∧ ∀ x, x ∈ all ↔ Reaches (ends arcs) start x := by
  have first : Listed arcs start [start] [] := by
    refine ⟨List.nodup_nil,.inr (List.mem_singleton_self start),?_,fun x member => absurd member List.not_mem_nil⟩
    rintro x (member | member)
    · exact absurd member List.not_mem_nil
    · rw [List.mem_singleton.mp member]
      exact .refl
  have few : ahead arcs [] ≤ arcs.length := List.countP_le_length
  refine first.visit_total ?_
  rw [List.length_singleton]
  omega

end listing

section climbing

/-- Go from parent to parent, until there is none or a vertex comes again. -/
def climb (parent : α → Option α) : Nat → Option α → List α → Option (List α)
  | 0,_,_ => none
  | _ + 1,none,result => some result
  | fuel + 1,some x,result => if x ∈ result then some result else climb parent fuel (parent x) (result ++ [x])

variable {parent : α → Option α} {known : List α}

theorem climb_more {fuel : Nat} {current : Option α} {result all : List α} (ended : climb parent fuel current result = some all)
    (extra : Nat) : climb parent (fuel + extra) current result = some all := by
  induction fuel generalizing current result with
  | zero => cases ended
  | succ fuel ih =>
    rw [Nat.succ_add]
    cases current with
    | none => exact ended
    | some x =>
      rw [climb] at ended ⊢
      split at ended
      · rename_i met
        rw [if_pos met]
        exact ended
      · rename_i new
        rw [if_neg new]
        exact ih ended

theorem climb_keeps {fuel : Nat} {current : Option α} {result all : List α} (ended : climb parent fuel current result = some all)
    {x : α} (listed : x ∈ result ∨ current = some x) : x ∈ all := by
  induction fuel generalizing current result with
  | zero => cases ended
  | succ fuel ih =>
    cases current with
    | none =>
      cases ended
      exact listed.resolve_right (by simp)
    | some y =>
      rw [climb] at ended
      split at ended
      · rename_i met
        cases ended
        rcases listed with old | same
        · exact old
        · exact Option.some.inj same ▸ met
      · refine ih ended (.inl ?_)
        rcases listed with old | same
        · exact List.mem_append_left _ old
        · exact List.mem_append_right _ (List.mem_singleton.mpr (Option.some.inj same).symm)

private structure Climbed (known : List α) (current : Option α) (result : List α) : Prop where
  distinct : result.Nodup
  within : ∀ x ∈ result, x ∈ known ∨ current = none

/-- Only known vertices have a parent, so the climb is at most one vertex longer than the list
    of those. -/
private theorem Climbed.climb_total (parents : ∀ x y, parent x = some y → x ∈ known) {fuel : Nat} {current : Option α}
    {result : List α} (climbed : Climbed known current result) (enough : current ≠ none → known.length + 2 ≤ fuel + result.length)
    (some_ : 0 < fuel) : ∃ all, climb parent fuel current result = some all := by
  induction fuel generalizing current result with
  | zero => omega
  | succ fuel ih =>
    cases current with
    | none => exact ⟨result,rfl⟩
    | some x =>
      have room := enough (by simp)
      have inside : ∀ y ∈ result, y ∈ known := fun y member => (climbed.within y member).resolve_right (by simp)
      have short : result.length ≤ known.length := (climbed.distinct.subperm inside).length_le
      rw [climb]
      by_cases met : x ∈ result
      · exact ⟨result,if_pos met⟩
      · rw [if_neg met]
        have distinct : (result ++ [x]).Nodup := by
          rw [← List.concat_eq_append]
          exact List.Nodup.concat met climbed.distinct
        refine ih ⟨distinct,fun y member => ?_⟩ (fun _ => ?_) (by omega)
        · cases above : parent x with
          | none => exact .inr rfl
          | some z =>
            rcases List.mem_append.mp member with old | single
            · exact .inl (inside y old)
            · exact .inl (List.mem_singleton.mp single ▸ parents x z above)
        · rw [List.length_append,List.length_singleton]
          omega

theorem climb_ends (parents : ∀ x y, parent x = some y → x ∈ known) (start : α) :
    ∃ all, climb parent (known.length + 2) (some start) [] = some all :=
  Climbed.climb_total parents ⟨List.nodup_nil,fun x member => absurd member List.not_mem_nil⟩ (fun _ => Nat.le_refl _) (by omega)

private theorem climb_chain (acyclic : ∀ x, ¬ Relation.TransGen (Parent parent) x x) {start : α} {fuel : Nat} {current : Option α}
    {result all : List α} (first : (result ++ current.toList).head? = some start) (linked : (result ++ current.toList).IsChain (Parent parent))
    (last : current = none → ∀ x ∈ result.getLast?, parent x = none) (ended : climb parent fuel current result = some all) :
    Chain parent start all := by
  induction fuel generalizing current result with
  | zero => cases ended
  | succ fuel ih =>
    cases current with
    | none =>
      cases ended
      exact ⟨by simpa using first,by simpa using linked,last rfl⟩
    | some x =>
      rw [climb] at ended
      rw [Option.toList_some] at first linked
      have apart : x ∉ result := by
        intro met
        have longer : (result ++ [x]).IsChain (Relation.TransGen (Parent parent)) := linked.imp fun _ _ => .single
        have pairs := List.isChain_iff_pairwise.mp longer
        exact acyclic x ((List.pairwise_append.mp pairs).2.2 x met x (List.mem_singleton_self x))
      rw [if_neg apart] at ended
      cases above : parent x with
      | none =>
        rw [above] at ended
        exact ih (by simpa using first) (by simpa using linked) (fun _ y member => by simp at member; rwa [← member]) ended
      | some z =>
        rw [above] at ended
        refine ih ?_ ?_ (by simp) ended
        · rw [List.head?_append,first]
          rfl
        · rw [Option.toList_some,List.isChain_append]
          refine ⟨linked,List.isChain_singleton z,fun y member w single => ?_⟩
          simp at member single
          rw [← member,← single]
          exact above

theorem climb_exact (acyclic : ∀ x, ¬ Relation.TransGen (Parent parent) x x) {start : α} {fuel : Nat} {all : List α}
    (ended : climb parent fuel (some start) [] = some all) : Chain parent start all :=
  climb_chain acyclic rfl (List.isChain_singleton start) (by simp) ended

end climbing
end MemoryEngine.GraphSearch
