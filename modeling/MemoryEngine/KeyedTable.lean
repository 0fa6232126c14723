import Mathlib.Data.List.Pairwise
import Mathlib.Data.Multiset.Filter
import Mathlib.Data.Multiset.AddSub
import Mathlib.Tactic.Linarith

/-! Tables with an automatically allocated integer key. The rows stand in key
order and the sequence counter never falls below a key handed out before, so a
deleted key is never allocated again. -/

namespace MemoryEngine.KeyedTable

universe u

/-- A row that carries its own key. -/
class Row (ρ : Type u) where
  key : ρ → Int

export Row (key)

/-- Rows in ascending key order below the allocation counter. -/
structure Table (ρ : Type u) [Row ρ] where
  rows : List ρ
  seq : Int
  ascending : rows.Pairwise (fun a b => key a < key b)
  allocated : ∀ row ∈ rows, key row ≤ seq

variable {ρ : Type u} [Row ρ]

namespace Table

def empty : Table ρ := ⟨[],0,List.Pairwise.nil,by simp⟩

instance : Inhabited (Table ρ) := ⟨empty⟩

/-- The key the next inserted row receives. -/
def nextId (table : Table ρ) : Int := table.seq + 1

/-- Append the row built from the next key. -/
def insert (table : Table ρ) (row : Int → ρ) (tagged : ∀ id, key (row id) = id) : Table ρ where
  rows := table.rows ++ [row table.nextId]
  seq := table.nextId
  ascending := by
    refine List.pairwise_append.mpr ⟨table.ascending,List.pairwise_singleton _ _,?_⟩
    intro old member fresh new
    rw [List.mem_singleton.mp new,tagged]
    exact Int.lt_add_one_of_le (table.allocated old member)
  allocated := by
    intro row' member
    rcases List.mem_append.mp member with old | new
    · exact (table.allocated row' old).trans (Int.le_of_lt (Int.lt_succ _))
    · rw [List.mem_singleton.mp new,tagged]

/-- Put a row with a key of its own in its place; the counter never falls below the key. -/
def insertKeyed (table : Table ρ) (row : ρ) : Table ρ where
  rows := table.rows.filter (fun r => key r < key row) ++ row :: table.rows.filter (fun r => key row < key r)
  seq := max table.seq (key row)
  ascending := by
    refine List.pairwise_append.mpr ⟨table.ascending.filter _,List.pairwise_cons.mpr ⟨?_,table.ascending.filter _⟩,?_⟩
    · intro later member
      exact of_decide_eq_true (List.mem_filter.mp member).2
    · intro earlier before later member
      have below : key earlier < key row := of_decide_eq_true (List.mem_filter.mp before).2
      rcases List.mem_cons.mp member with rfl | after
      · exact below
      · exact below.trans (of_decide_eq_true (List.mem_filter.mp after).2)
  allocated := by
    intro row' member
    rcases List.mem_append.mp member with before | rest
    · exact (table.allocated row' (List.mem_filter.mp before).1).trans (le_max_left _ _)
    · rcases List.mem_cons.mp rest with rfl | after
      · exact le_max_right _ _
      · exact (table.allocated row' (List.mem_filter.mp after).1).trans (le_max_left _ _)

/-- Set the counter. The keys of the rows still bound it from below. -/
def reseat (table : Table ρ) (max_id : Int) : Table ρ where
  rows := table.rows
  seq := (table.rows.map key).foldr max max_id
  ascending := table.ascending
  allocated := by
    have bounded : ∀ keys : List Int, ∀ k ∈ keys, k ≤ keys.foldr max max_id := by
      intro keys
      induction keys with
      | nil => simp
      | cons first rest ih =>
        intro k member
        rcases List.mem_cons.mp member with rfl | later
        · exact le_max_left _ _
        · exact (ih k later).trans (le_max_right _ _)
    exact fun row member => bounded _ _ (List.mem_map_of_mem member)

/-- Rewrite the rows that satisfy a predicate; the rewrite keeps every key. -/
def update (table : Table ρ) (sel : ρ → Bool) (change : ρ → ρ)
    (same : ∀ row, key (change row) = key row := by intro _; rfl) : Table ρ where
  rows := table.rows.map (fun row => if sel row then change row else row)
  seq := table.seq
  ascending := by
    have keeps : ∀ row, key (if sel row then change row else row) = key row := by
      intro row
      split
      · exact same row
      · rfl
    rw [List.pairwise_map]
    simpa only [keeps] using table.ascending
  allocated := by
    intro row' member
    obtain ⟨row,old,rfl⟩ := List.mem_map.mp member
    have bound := table.allocated row old
    split
    · rw [same]; exact bound
    · exact bound

/-- Drop the rows that satisfy a predicate. -/
def delete (table : Table ρ) (sel : ρ → Bool) : Table ρ where
  rows := table.rows.filter (fun row => !sel row)
  seq := table.seq
  ascending := table.ascending.filter _
  allocated := fun row member => table.allocated row (List.mem_filter.mp member).1

def find (table : Table ρ) (id : Int) : Option ρ := table.rows.find? (fun row => key row == id)

/-- Some row has this key. -/
def Has (table : Table ρ) (id : Int) : Prop := ∃ row ∈ table.rows, key row = id

instance (table : Table ρ) (id : Int) : Decidable (table.Has id) :=
  inferInstanceAs (Decidable (∃ row ∈ table.rows, key row = id))

theorem insert_rows (table : Table ρ) (row : Int → ρ) (tagged : ∀ id, key (row id) = id) :
    (table.insert row tagged).rows = table.rows ++ [row table.nextId] := rfl

theorem update_rows (table : Table ρ) (sel : ρ → Bool) (change : ρ → ρ) (same : ∀ row, key (change row) = key row) :
    (table.update sel change same).rows = table.rows.map (fun row => if sel row then change row else row) := rfl

theorem delete_rows (table : Table ρ) (sel : ρ → Bool) :
    (table.delete sel).rows = table.rows.filter (fun row => !sel row) := rfl

@[simp] theorem insert_seq (table : Table ρ) (row : Int → ρ) (tagged : ∀ id, key (row id) = id) :
    (table.insert row tagged).seq = table.nextId := rfl
@[simp] theorem update_seq (table : Table ρ) (sel : ρ → Bool) (change : ρ → ρ) (same : ∀ row, key (change row) = key row) :
    (table.update sel change same).seq = table.seq := rfl
@[simp] theorem delete_seq (table : Table ρ) (sel : ρ → Bool) : (table.delete sel).seq = table.seq := rfl

theorem mem_insert {table : Table ρ} {row : Int → ρ} {tagged : ∀ id, key (row id) = id} {r : ρ} :
    r ∈ (table.insert row tagged).rows ↔ r ∈ table.rows ∨ r = row table.nextId := by
  simp [insert_rows]

theorem mem_update {table : Table ρ} {sel : ρ → Bool} {change : ρ → ρ} {same : ∀ row, key (change row) = key row}
    {r : ρ} : r ∈ (table.update sel change same).rows ↔
      ∃ old ∈ table.rows, r = if sel old then change old else old := by
  simp only [update_rows,List.mem_map]
  exact exists_congr fun old => and_congr_right fun _ => eq_comm

theorem mem_delete {table : Table ρ} {sel : ρ → Bool} {r : ρ} :
    r ∈ (table.delete sel).rows ↔ r ∈ table.rows ∧ sel r = false := by
  simp [delete_rows]

theorem mem_insertKeyed {table : Table ρ} {row r : ρ} (unused : ¬ table.Has (key row)) :
    r ∈ (table.insertKeyed row).rows ↔ r ∈ table.rows ∨ r = row := by
  have apart : ∀ other ∈ table.rows, key other < key row ∨ key row < key other :=
    fun other member => lt_or_gt_of_ne fun same => unused ⟨other,member,same⟩
  simp only [insertKeyed,List.mem_append,List.mem_cons,List.mem_filter,decide_eq_true_eq]
  constructor
  · rintro (before | rfl | after)
    · exact .inl before.1
    · exact .inr rfl
    · exact .inl after.1
  · rintro (member | rfl)
    · rcases apart r member with below | above
      · exact .inl ⟨member,below⟩
      · exact .inr (.inr ⟨member,above⟩)
    · exact .inr (.inl rfl)

theorem keys_nodup (table : Table ρ) : (table.rows.map key).Nodup := by
  rw [List.Nodup,List.pairwise_map]
  exact table.ascending.imp (fun lt => lt.ne)

/-- Two rows with one key are one row. -/
theorem key_unique (table : Table ρ) {a b : ρ} (left : a ∈ table.rows) (right : b ∈ table.rows)
    (same : key a = key b) : a = b :=
  List.inj_on_of_nodup_map table.keys_nodup left right same

theorem rows_nodup (table : Table ρ) : table.rows.Nodup :=
  table.ascending.imp (fun lt same => lt.ne (congrArg key same))

/-- A new key is above every key in use. -/
theorem nextId_fresh (table : Table ρ) {row : ρ} (member : row ∈ table.rows) : key row < table.nextId :=
  Int.lt_add_one_of_le (table.allocated row member)

theorem not_has_nextId (table : Table ρ) : ¬ table.Has table.nextId := by
  rintro ⟨row,member,same⟩
  exact (table.nextId_fresh member).ne same

theorem find_eq_some {table : Table ρ} {id : Int} {row : ρ} :
    table.find id = some row ↔ row ∈ table.rows ∧ key row = id := by
  constructor
  · intro found
    exact ⟨List.mem_of_find?_eq_some found,by simpa using List.find?_some found⟩
  · rintro ⟨member,rfl⟩
    cases found : table.find (key row) with
    | none => exact absurd (List.find?_eq_none.mp found row member) (by simp)
    | some other =>
      have sameKey : key other = key row := by simpa using List.find?_some found
      rw [table.key_unique (List.mem_of_find?_eq_some found) member sameKey]

theorem has_iff_find {table : Table ρ} {id : Int} : table.Has id ↔ ∃ row, table.find id = some row := by
  simp only [find_eq_some]
  exact Iff.rfl

theorem has_of_mem {table : Table ρ} {row : ρ} (member : row ∈ table.rows) : table.Has (key row) := ⟨row,member,rfl⟩

@[simp] theorem has_insert {table : Table ρ} {row : Int → ρ} {tagged : ∀ id, key (row id) = id} {id : Int} :
    (table.insert row tagged).Has id ↔ table.Has id ∨ id = table.nextId := by
  simp only [Has,mem_insert]
  constructor
  · rintro ⟨r,member | rfl,same⟩
    · exact .inl ⟨r,member,same⟩
    · exact .inr (by rw [← same,tagged])
  · rintro (⟨r,member,same⟩ | rfl)
    · exact ⟨r,.inl member,same⟩
    · exact ⟨_,.inr rfl,tagged _⟩

@[simp] theorem has_update {table : Table ρ} {sel : ρ → Bool} {change : ρ → ρ}
    {same : ∀ row, key (change row) = key row} {id : Int} : (table.update sel change same).Has id ↔ table.Has id := by
  have keeps : ∀ row, key (if sel row then change row else row) = key row := by
    intro row
    split
    · exact same row
    · rfl
  simp only [Has,mem_update]
  constructor
  · rintro ⟨_,⟨old,member,rfl⟩,found⟩
    exact ⟨old,member,by rwa [keeps] at found⟩
  · rintro ⟨old,member,found⟩
    exact ⟨_,⟨old,member,rfl⟩,by rwa [keeps]⟩

theorem has_delete {table : Table ρ} {sel : ρ → Bool} {id : Int} :
    (table.delete sel).Has id ↔ ∃ row ∈ table.rows, key row = id ∧ sel row = false := by
  simp only [Has,mem_delete]
  constructor <;> rintro ⟨row,h⟩
  · exact ⟨row,h.1.1,h.2,h.1.2⟩
  · exact ⟨row,⟨h.1,h.2.2⟩,h.2.1⟩

end Table
end MemoryEngine.KeyedTable
