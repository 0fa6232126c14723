import MemoryEngine.ScopeMirror
import MemoryEngine.SpaceLife

/-! When the scope loop of a batch succeeds. Where the root scope exists a path is created
exactly when each of its labels is valid, and the loop leads every entry to the scope
that its path ends in. -/

namespace MemoryEngine
open Time KeyedTable Transaction Tables

/-- Every label of the path may be written. -/
def WellFormedPath (path : String) : Prop := ∀ segment ∈ segments path, ValidLabel segment

instance (path : String) : Decidable (WellFormedPath path) := inferInstanceAs (Decidable (∀ segment ∈ segments path, ValidLabel segment))

/-- The scope a request names: the root without a path. -/
def Tables.LeadsTo (t : Tables) : Option String → Int → Prop
  | none,id => id = 1
  | some path,id => t.descend 1 (segments path) = some id

theorem Tables.LeadsTo.mono {s t : Db} (kept : ∀ n ∈ s.scopes.rows, n ∈ t.scopes.rows) {scope : Option String} {id : Int}
    (leads : s.LeadsTo scope id) : t.LeadsTo scope id := by
  cases scope with
  | none => exact leads
  | some path => exact descend_mono kept leads

namespace ScopeStore

end ScopeStore

namespace Ingest

/-- A scope that exists and that a request names. -/
def Names (t : Db) (scope : Option String) (id : Int) : Prop := t.LeadsTo scope id ∧ t.scopes.Has id

theorem Names.mono {s t : Db} (kept : ∀ n ∈ s.scopes.rows, n ∈ t.scopes.rows) {scope : Option String} {id : Int} (names : Names s scope id) :
    Names t scope id := by
  obtain ⟨leads,row,member,same⟩ := names
  exact ⟨leads.mono kept,row,kept row member,same⟩

/-- What the scope loop has found for the entries met so far. -/
structure Located (t : Db) (acc : ResolvedScopes) (met : List (Option String)) : Prop where
  cached : ∀ entry ∈ acc.scope_cache, WellFormedPath entry.1 ∧ Names t (some entry.1) entry.2
  entries : List.Forall₂ (Names t) met acc.per_entry
  formed : ∀ path, some path ∈ met → WellFormedPath path

theorem Located.mono {s t : Db} {acc : ResolvedScopes} {met : List (Option String)} (kept : ∀ n ∈ s.scopes.rows, n ∈ t.scopes.rows)
    (located : Located s acc met) : Located t acc met where
  cached := fun entry listed => ⟨(located.cached entry listed).1,(located.cached entry listed).2.mono kept⟩
  entries := located.entries.imp fun _ _ names => names.mono kept
  formed := located.formed

theorem Located.has {t : Db} {acc : ResolvedScopes} {met : List (Option String)} (located : Located t acc met) :
    ∀ id ∈ acc.per_entry, t.scopes.Has id := by
  have entries := located.entries
  clear located
  generalize acc.per_entry = ids at entries ⊢
  induction entries with
  | nil => simp
  | cons names _ ih => exact List.forall_mem_cons.mpr ⟨names.2,ih⟩

end Ingest
end MemoryEngine
