import MemoryEngine.Restore

/-! The ids of a restored store. A source remembers the last id that it has allocated, a
restore sees the rows that are left. -/

namespace MemoryEngine.KeyedTable

universe u
variable {ρ : Type u} [Row ρ]

namespace Table

/-- The keys are handed out one after the other, and the counter is the last of them. -/
def Allocated (t : Table ρ) (id : Int) : Prop := 0 < id ∧ id ≤ t.seq

/-- The row with the last key is still there, unless there was none. -/
def Newest (t : Table ρ) : Prop := t.seq ≤ 0 ∨ t.Has t.seq

/-- What `u` allocates next is above all that `s` has allocated. -/
def Beyond (s u : Table ρ) : Prop := ∀ id, s.Allocated id → id < u.nextId

variable {s t : Table ρ}

/-- An insert allocates one key more. -/
theorem allocated_insert {row : Int → ρ} {tagged : ∀ id, key (row id) = id} (start : 0 ≤ t.seq) (id : Int) :
    (t.insert row tagged).Allocated id ↔ t.Allocated id ∨ id = t.nextId := by
  have next : (t.insert row tagged).seq = t.nextId := rfl
  unfold Allocated
  rw [next,nextId]
  omega

theorem newest_insert (row : Int → ρ) (tagged : ∀ id, key (row id) = id) : (t.insert row tagged).Newest :=
  .inr ⟨row t.nextId,mem_insert.mpr (.inr rfl),tagged _⟩

/-- What a later state allocates next is no less. -/
theorem Beyond.later {u : Table ρ} (beyond : Beyond s t) (grown : t.seq ≤ u.seq) : Beyond s u := by
  intro id allocated
  have below := beyond id allocated
  unfold nextId at below ⊢
  omega

end Table
end MemoryEngine.KeyedTable

namespace MemoryEngine
open Time KeyedTable Transaction

/-! ## What a history does to events and scopes -/

/-- Events and scopes are never deleted. -/
structure Tables.Extends (s t : Tables) : Prop where
  events : s.events.seq ≤ t.events.seq
  newest_event : s.events.Newest → t.events.Newest
  newest_scope : s.scopes.Newest → t.scopes.Newest

namespace Tables.Extends

theorem same {s t : Tables} (events : t.events = s.events) (scopes : t.scopes = s.scopes) : Extends s t :=
  ⟨by rw [events],by rw [events]; exact id,by rw [scopes]; exact id⟩

theorem trans {s m t : Tables} (first : Extends s m) (second : Extends m t) : Extends s t :=
  ⟨first.events.trans second.events,fun newest => second.newest_event (first.newest_event newest),
    fun newest => second.newest_scope (first.newest_scope newest)⟩

theorem of_changes {dim expected_dim : Nat} {s t : Tables} (changes : Changes dim expected_dim s t) : Extends s t := by
  refine changes.respects (fun _ => same rfl rfl) (fun _ _ _ => trans) fun s t change => ?_
  cases change with
  | insert_event row tagged => exact ⟨Int.le_of_lt (Int.lt_succ _),fun _ => Table.newest_insert row tagged,id⟩
  | insert_scope row tagged => exact ⟨le_refl _,id,fun _ => Table.newest_insert row tagged⟩
  | beside beside => exact same beside.events beside.scopes
  | _ => exact same rfl rfl

end Tables.Extends

theorem PortRun.extends {s t : Db} (run : PortRun s t) : s.toTables.Extends t.toTables := by
  induction run with
  | start => exact .same rfl rfl
  | @call m t before self call committed ih =>
    refine ih.trans ?_
    by_cases spaces : call.OnSpaces
    · have leaves : Leaves (fun t => (t.events,t.scopes)) (call.run self) :=
        PortWrite.leaves_onSpaces (fun _ _ => rfl) (fun _ _ => rfl) (fun _ _ => rfl) spaces
      obtain ⟨events,scopes⟩ := Prod.mk.inj (leaves m () t committed)
      exact .same events scopes
    · exact .of_changes (PortWrite.makes self spaces _ _ _ committed)

namespace Restore

/-! ## Counters -/

section counters
variable {ρ : Type} [Row ρ]

end counters

end Restore

/-! ## Histories -/

namespace Sample

def packed : PortWrite := .commit_archive_atomic (Archive.manifest "a.pak" [] [] 0 "" moment) [1]

end Sample

end MemoryEngine
