import MemoryEngine.KeyedTable
import Mathlib.Data.List.Perm.Subperm
import Mathlib.Data.List.Sort

/-! How a table with allocated keys can look later. Keys below the counter are
never handed out again, so every row with an old key is an old row, perhaps
rewritten; what may become of a row is a relation between its two versions. -/

namespace MemoryEngine.KeyedTable

universe u v

variable {ρ : Type u} [Row ρ] {kept : ρ → ρ → Prop}

/-- `t` is a later state of `s`: the counter has not fallen, and a row with an old
    key is what became of the row that had it. -/
structure Table.Ages (kept : ρ → ρ → Prop) (s t : Table ρ) : Prop where
  seq : s.seq ≤ t.seq
  old : ∀ row ∈ t.rows, key row ≤ s.seq → ∃ before ∈ s.rows, key before = key row ∧ kept before row

namespace Table.Ages
variable {s m t : Table ρ}

theorem refl (same : ∀ row, kept row row) (s : Table ρ) : Ages kept s s :=
  ⟨le_refl _,fun row member _ => ⟨row,member,rfl,same row⟩⟩

theorem trans (compose : ∀ a b c, kept a b → kept b c → kept a c) (first : Ages kept s m) (second : Ages kept m t) :
    Ages kept s t := by
  refine ⟨first.seq.trans second.seq,?_⟩
  intro row member low
  obtain ⟨middle,here,keyed,later⟩ := second.old row member (low.trans first.seq)
  obtain ⟨before,there,named,earlier⟩ := first.old middle here (keyed ▸ low)
  exact ⟨before,there,named.trans keyed,compose _ _ _ earlier later⟩

theorem insert (same : ∀ row, kept row row) (s : Table ρ) (row : Int → ρ) (tagged : ∀ id, key (row id) = id) :
    Ages kept s (s.insert row tagged) := by
  refine ⟨Int.le_of_lt (Int.lt_succ _),?_⟩
  intro r member low
  rcases mem_insert.mp member with old | rfl
  · exact ⟨r,old,rfl,same r⟩
  · rw [tagged] at low
    exact absurd low (not_le.mpr (Int.lt_succ s.seq))

theorem update {sel : ρ → Bool} {change : ρ → ρ} (same : ∀ row, kept row row) (s : Table ρ)
    (keys : ∀ row, key (change row) = key row) (rewritten : ∀ row ∈ s.rows, sel row = true → kept row (change row)) : Ages kept s (s.update sel change keys) := by
  refine ⟨le_refl _,?_⟩
  intro r member _
  obtain ⟨old,held,rfl⟩ := mem_update.mp member
  by_cases selected : sel old = true
  · rw [if_pos selected]
    exact ⟨old,held,(keys old).symm,rewritten old held selected⟩
  · rw [if_neg selected]
    exact ⟨old,held,rfl,same old⟩

theorem delete (same : ∀ row, kept row row) (s : Table ρ) (sel : ρ → Bool) : Ages kept s (s.delete sel) := by
  refine ⟨le_refl _,?_⟩
  intro r member _
  exact ⟨r,(mem_delete.mp member).1,rfl,same r⟩

/-- A key that is no longer in use stays out of use. -/
theorem not_has {id : Int} (ages : Ages kept s t) (low : id ≤ s.seq) (gone : ¬ s.Has id) : ¬ t.Has id := by
  rintro ⟨row,member,rfl⟩
  obtain ⟨before,held,same,_⟩ := ages.old row member low
  exact gone ⟨before,held,same⟩

end Table.Ages

section fingerprint
variable (live : ρ → Bool)

/-- `COALESCE(MAX(key), 0)`. -/
def Table.maxKey (t : Table ρ) : Int := (t.rows.map key).max?.getD 0

/-- The rows that count. -/
def Table.liveRows (t : Table ρ) : List ρ := t.rows.filter live

variable {live} {s t : Table ρ}

theorem Table.le_maxKey {row : ρ} (member : row ∈ t.rows) : key row ≤ t.maxKey := by
  have listed := List.mem_map_of_mem (f := key) member
  obtain ⟨top,found⟩ := Option.isSome_iff_exists.mp (List.isSome_max?_of_mem listed)
  rw [Table.maxKey,found]
  exact (List.max?_le_iff found).mp (le_refl top) _ listed

theorem Table.maxKey_le {row : ρ} (member : row ∈ t.rows) : t.maxKey ≤ t.seq := by
  have listed := List.mem_map_of_mem (f := key) member
  obtain ⟨top,found⟩ := Option.isSome_iff_exists.mp (List.isSome_max?_of_mem listed)
  obtain ⟨last,here,same⟩ := List.mem_map.mp (List.max?_mem found)
  rw [Table.maxKey,found]
  exact same ▸ t.allocated last here

/-- With the same maximum and the same count, no row has come to count and none has
    ceased to. -/
theorem Table.Ages.live_mem {row : ρ} (ages : Ages kept s t) (live_before : ∀ a b, kept a b → live b = true → live a = true)
    (same_max : t.maxKey = s.maxKey) (same_count : (t.liveRows live).length = (s.liveRows live).length)
    (counts : row ∈ t.liveRows live) : ∃ before ∈ s.liveRows live, key before = key row ∧ kept before row := by
  obtain ⟨member,alive⟩ := List.mem_filter.mp counts
  by_cases low : key row ≤ s.seq
  · obtain ⟨before,held,same,became⟩ := ages.old row member low
    exact ⟨before,List.mem_filter.mpr ⟨held,live_before _ _ became alive⟩,same,became⟩
  · -- a row with a new key would raise the maximum, and an empty table counts none
    cases first : s.liveRows live with
    | nil =>
      rw [first,List.length_nil,List.length_eq_zero_iff] at same_count
      rw [same_count] at counts
      cases counts
    | cons some rest =>
      have inside : some ∈ s.rows := (List.mem_filter.mp (first ▸ List.mem_cons_self : some ∈ s.liveRows live)).1
      have below := maxKey_le inside
      have above := le_maxKey member
      omega

theorem Table.live_ascending {β : Type v} (f : ρ → β) (t : Table ρ) :
    ((t.liveRows live).map fun row => (key row,f row)).Pairwise (fun a b => a.1 < b.1) := by
  rw [List.pairwise_map]
  exact t.ascending.filter _

theorem Table.live_nodup {β : Type v} (f : ρ → β) (t : Table ρ) : ((t.liveRows live).map fun row => (key row,f row)).Nodup :=
  (t.live_ascending f).imp fun less same => less.ne (congrArg Prod.fst same)

/-- Rows that count and stand under their keys among as many others are those others. -/
theorem Table.live_eq_of_subset {β : Type v} {f : ρ → β}
    (within : ((t.liveRows live).map fun row => (key row,f row)) ⊆ (s.liveRows live).map fun row => (key row,f row))
    (few : (s.liveRows live).length ≤ (t.liveRows live).length) : (t.liveRows live).map f = (s.liveRows live).map f := by
  have perm := ((t.live_nodup f).subperm within).perm_of_length_le (by rwa [List.length_map,List.length_map])
  have tagged := perm.eq_of_pairwise (fun a b _ _ less more => absurd (less.trans more) (lt_irrefl _)) (t.live_ascending f) (s.live_ascending f)
  have second := congrArg (List.map Prod.snd) tagged
  rwa [List.map_map,List.map_map] at second

/-- With the same maximum and the same count, the rows that count agree in whatever
    a row keeps. -/
theorem Table.Ages.live_eq {β : Type v} {f : ρ → β} (ages : Ages kept s t) (live_before : ∀ a b, kept a b → live b = true → live a = true)
    (stable : ∀ a b, key a = key b → kept a b → f b = f a) (same_max : t.maxKey = s.maxKey)
    (same_count : (t.liveRows live).length = (s.liveRows live).length) : (t.liveRows live).map f = (s.liveRows live).map f := by
  refine Table.live_eq_of_subset (fun pair listed => ?_) (le_of_eq same_count.symm)
  obtain ⟨row,counts,rfl⟩ := List.mem_map.mp listed
  obtain ⟨before,held,same,became⟩ := ages.live_mem live_before same_max same_count counts
  exact List.mem_map.mpr ⟨before,held,by rw [same,stable _ _ same became]⟩

end fingerprint
end MemoryEngine.KeyedTable
