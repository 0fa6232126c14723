import Mathlib.Logic.Relation
import Mathlib.Data.List.Pairwise
import Mathlib.Order.Defs.PartialOrder

/-! A log of merges. Each entry folds one item into another, and an item that was
folded away takes no further part. Read as a relation such a log is a forest: no
item reaches itself, and from every folded item the entries lead to one that is
kept. -/

namespace MemoryEngine.MergeLog

universe u
variable {α : Type u}

/-- The first item was folded into the second. -/
def Into (log : List (α × α)) (a b : α) : Prop := (a,b) ∈ log

/-- The items that were folded away. -/
def folded (log : List (α × α)) : List α := log.map Prod.fst

/-- No entry folds an item into itself, and a folded item appears in no later entry. -/
structure Ordered (log : List (α × α)) : Prop where
  apart : ∀ entry ∈ log, entry.1 ≠ entry.2
  later : log.Pairwise (fun earlier later => earlier.1 ≠ later.1 ∧ earlier.1 ≠ later.2)

theorem Ordered.nil : Ordered ([] : List (α × α)) := ⟨by simp,List.Pairwise.nil⟩

theorem Ordered.append {log : List (α × α)} {a b : α} (ordered : Ordered log) (apart : a ≠ b) (left : a ∉ folded log)
    (right : b ∉ folded log) : Ordered (log ++ [(a,b)]) where
  apart := by
    intro entry listed
    rcases List.mem_append.mp listed with old | new
    · exact ordered.apart entry old
    · rw [List.mem_singleton.mp new]
      exact apart
  later := by
    refine List.pairwise_append.mpr ⟨ordered.later,List.pairwise_singleton _ _,fun earlier old entry new => ?_⟩
    rw [List.mem_singleton.mp new]
    have listed : earlier.1 ∈ folded log := List.mem_map_of_mem old
    exact ⟨fun same => left (by rw [← show earlier.1 = a from same]; exact listed),
      fun same => right (by rw [← show earlier.1 = b from same]; exact listed)⟩

theorem Ordered.sublist {log part : List (α × α)} (ordered : Ordered log) (sub : part.Sublist log) : Ordered part :=
  ⟨fun entry listed => ordered.apart entry (sub.subset listed),ordered.later.sublist sub⟩

theorem Ordered.tail {entry : α × α} {log : List (α × α)} (ordered : Ordered (entry :: log)) : Ordered log :=
  ordered.sublist (List.sublist_cons_self _ _)

/-- Every item is folded away at most once. -/
theorem Ordered.nodup {log : List (α × α)} (ordered : Ordered log) : (folded log).Nodup := by
  rw [folded,List.Nodup,List.pairwise_map]
  exact ordered.later.imp fun apart => apart.1

/-- Nothing is folded into an item that an earlier entry folded away. -/
theorem Ordered.not_into {entry : α × α} {log : List (α × α)} (ordered : Ordered (entry :: log)) (x : α) :
    ¬ Into (entry :: log) x entry.1 := by
  intro into
  rcases List.mem_cons.mp into with here | later
  · have same : entry.1 = entry.2 := congrArg Prod.snd here
    exact ordered.apart entry List.mem_cons_self same
  · exact ((List.pairwise_cons.mp ordered.later).1 _ later).2 rfl

theorem chain_mono {part log : List (α × α)} (sub : part ⊆ log) {a b : α} (chain : Relation.TransGen (Into part) a b) :
    Relation.TransGen (Into log) a b := by
  induction chain with
  | single into => exact .single (sub into)
  | tail _ into ih => exact ih.tail (sub into)

/-- A chain that leaves the first entry's item aside runs in the rest of the log. -/
theorem Ordered.chain_tail {entry : α × α} {log : List (α × α)} {a b : α} (ordered : Ordered (entry :: log)) (away : a ≠ entry.1)
    (chain : Relation.TransGen (Into (entry :: log)) a b) : Relation.TransGen (Into log) a b := by
  induction chain with
  | single into =>
    rcases List.mem_cons.mp into with here | later
    · exact absurd (congrArg Prod.fst here) away
    · exact .single later
  | tail earlier into ih =>
    rename_i middle last
    rcases List.mem_cons.mp into with here | later
    · -- the chain would have entered the first item before
      have same : middle = entry.1 := congrArg Prod.fst here
      rw [same] at earlier
      rcases Relation.TransGen.tail'_iff.mp earlier with ⟨_,_,last⟩
      exact absurd last (ordered.not_into _)
    · exact ih.tail later

/-- No chain of merges returns to where it started. -/
theorem Ordered.acyclic {log : List (α × α)} (ordered : Ordered log) (a : α) : ¬ Relation.TransGen (Into log) a a := by
  induction log with
  | nil =>
    intro chain
    obtain ⟨_,_,into⟩ := Relation.TransGen.tail'_iff.mp chain
    cases into
  | cons entry rest ih =>
    intro chain
    by_cases first : a = entry.1
    · obtain ⟨_,_,into⟩ := Relation.TransGen.tail'_iff.mp chain
      rw [first] at into
      exact ordered.not_into _ into
    · exact ih ordered.tail (ordered.chain_tail first chain)

/-- From every folded item the merges lead to one that is kept and that some entry
    folded another into. -/
theorem Ordered.kept {log : List (α × α)} (ordered : Ordered log) {a : α} (listed : a ∈ folded log) :
    ∃ b, Relation.TransGen (Into log) a b ∧ b ∉ folded log ∧ ∃ c, Into log c b := by
  induction log generalizing a with
  | nil => cases listed
  | cons entry rest ih =>
    have fresh : ∀ {b c}, Into rest c b → b ∉ folded rest → b ∉ folded (entry :: rest) := by
      intro b c into kept again
      rcases List.mem_cons.mp again with first | later
      · rw [first] at into
        exact ordered.not_into _ (List.mem_cons_of_mem _ into)
      · exact kept later
    have fromRest : ∀ {x}, x ∈ folded rest →
        ∃ b, Relation.TransGen (Into (entry :: rest)) x b ∧ b ∉ folded (entry :: rest) ∧ ∃ c, Into (entry :: rest) c b := by
      intro x inRest
      obtain ⟨b,chain,kept,c,into⟩ := ih ordered.tail inRest
      exact ⟨b,chain_mono (List.subset_cons_self _ _) chain,fresh into kept,c,List.mem_cons_of_mem _ into⟩
    rcases List.mem_cons.mp listed with rfl | inRest
    · have first : Into (entry :: rest) entry.1 entry.2 := List.mem_cons_self
      by_cases again : entry.2 ∈ folded rest
      · obtain ⟨b,chain,kept,into⟩ := fromRest again
        exact ⟨b,.head first chain,kept,into⟩
      · refine ⟨entry.2,.single first,fun either => ?_,entry.1,first⟩
        rcases List.mem_cons.mp either with same | later
        · exact ordered.apart entry List.mem_cons_self same.symm
        · exact again later
    · exact fromRest inRest

end MemoryEngine.MergeLog
