import MemoryEngine.Drafts

/-! A statement that gives one column of every row another value, and the triggers that keep
a text index in step with the rows. -/

namespace MemoryEngine.Relational

section overwrite
variable {T C I G V : Type} [DecidableEq T] [DecidableEq C]

/-- Every row of a table with another value of a column. -/
def Database.overwritten (db : Database T C I G V) (t : T) (column : C) (value : (C → V) → V) : Database T C I G V :=
  db.with_rows t ((db.rows t).map fun r => Function.update r column (value r))

variable {apart grown : List T} {db m : Database T C I G V} {t : T} {column : C} {value : (C → V) → V}

@[simp] theorem Database.overwritten_ne (m : Database T C I G V) {u : T} (other : u ≠ t) : (m.overwritten t column value).rows u = m.rows u :=
  m.with_rows_ne t _ other

/-- A row has its counterpart, but for the column. -/
theorem Database.row_overwritten {u : T} {r : C → V} (stored : r ∈ m.rows u) :
    ∃ r' ∈ (m.overwritten t column value).rows u, ∀ c, (u = t → c ≠ column) → r' c = r c := by
  by_cases same : u = t
  · subst same
    refine ⟨Function.update r column (value r),?_,fun c differs => Function.update_of_ne (differs rfl) ..⟩
    rw [Database.overwritten,Database.with_rows_self]
    exact List.mem_map_of_mem stored
  · rw [Database.overwritten_ne _ same]
    exact ⟨r,stored,fun _ _ => rfl⟩

/-- Values of a new column are nobody's to keep. -/
theorem Keeps.overwrite (keeps : Keeps apart grown db m) (new : column ∉ db.catalog.names t) : Keeps apart grown db (m.overwritten t column value) := by
  intro u outside present
  obtain ⟨there,names,more,known,rows⟩ := keeps u outside present
  refine ⟨there,names,more,known,?_⟩
  by_cases same : u = t
  · subst same
    rw [Database.overwritten,Database.with_rows_self,List.forall₂_map_right_iff]
    refine rows.imp fun {_ _} agree c listed => ?_
    refine (Function.update_of_ne ?_ ..).trans (agree c listed)
    rintro rfl
    exact new listed
  · rw [Database.overwritten_ne _ same]
    exact rows

variable [Nullable V] {valid : V → Bool} {target : Catalog T C I G V}

theorem Conforms.overwrite (conforms : Conforms valid target m)
    (unreferenced : ∀ u, ∀ c ∈ target.columns u, ∀ ref ∈ c.references, ref.table = t → ref.column ≠ column)
    (takes : ∀ r ∈ m.rows t, ∀ c ∈ target.columns t, c.name = column → c.references = none ∧ c.Admits valid (value r)) :
    Conforms valid target (m.overwritten t column value) := by
  have still : ∀ u, ∀ c ∈ target.columns u, ∀ v, c.Holds valid m v → c.Holds valid (m.overwritten t column value) v := by
    intro u c required v holds
    refine ⟨holds.1,fun ref has => ⟨(holds.2 ref has).1,(holds.2 ref has).2.imp_right ?_⟩⟩
    rintro ⟨parent,stored,same⟩
    obtain ⟨parent',stored',agree⟩ := Database.row_overwritten stored
    exact ⟨parent',stored',(agree ref.column (unreferenced u c required ref has)).trans same⟩
  intro u r' stored c required listed
  by_cases same : u = t
  · subst same
    rw [Database.overwritten,Database.with_rows_self] at stored
    obtain ⟨r,old,rfl⟩ := List.mem_map.mp stored
    by_cases written : c.name = column
    · rw [written,Function.update_self]
      obtain ⟨free,admits⟩ := takes r old c required written
      refine ⟨admits,fun ref has => ?_⟩
      rw [free] at has
      cases has
    · rw [Function.update_of_ne written]
      exact still u c required _ (conforms u r old c required listed)
  · rw [Database.overwritten_ne _ same] at stored
    exact still u c required _ (conforms u r' stored c required listed)

end overwrite

section index
variable {T C I G V : Type}

/-- A text index has an entry for each row of a table. -/
def Database.Indexed (db : Database T C I G V) (index t : T) (rowid content : C) : Prop :=
  (db.postings index).Perm ((db.rows t).map fun r => (r rowid,r content))

variable {index t : T} {rowid content : C}

theorem with_postings_with_postings [DecidableEq T] (db : Database T C I G V) (entries entries' : List (V × V)) :
    (db.with_postings index entries).with_postings index entries' = db.with_postings index entries' := by
  unfold Database.with_postings
  simp

/-- The entries stay those of the rows. -/
theorem indexed_overwritten [DecidableEq T] [DecidableEq C] {db : Database T C I G V} {column : C} {value : (C → V) → V} {entries : List (V × V)}
    (indexed : db.Indexed index t rowid content) (other : rowid ≠ column ∧ content ≠ column) (perm : entries.Perm (db.postings index)) :
    ((db.overwritten t column value).with_postings index entries).Indexed index t rowid content := by
  unfold Database.Indexed
  rw [Database.with_postings_self,Database.with_postings_rows,Database.overwritten,Database.with_rows_self,List.map_map]
  have same : ((fun r => (r rowid,r content)) ∘ fun r => Function.update r column (value r)) = fun r : C → V => (r rowid,r content) := by
    funext r
    exact Prod.ext (Function.update_of_ne other.1 ..) (Function.update_of_ne other.2 ..)
  rw [same]
  exact perm.trans indexed

variable [FinEnum T] [FinEnum G] [DecidableEq V]

/-- Taking a row out of the index and entering it again leaves its entries, as long as the
    indexed values of the row stay. -/
theorem foldlM_reenter {d : Database T C I G V} (fired : d.catalog.fired .update t = [.remove index rowid content,.enter index rowid content])
    (new : (C → V) → C → V) (stays : ∀ r, new r rowid = r rowid ∧ new r content = r content) {rows : List (C → V)}
    (listed : ∀ r ∈ rows, (r rowid,r content) ∈ d.postings index) :
    ∃ entries, rows.foldlM (fun d r => d.fire .update t r (new r)) d = some (d.with_postings index entries) ∧ entries.Perm (d.postings index) := by
  induction rows generalizing d with
  | nil =>
    refine ⟨d.postings index,?_,List.Perm.refl _⟩
    have unchanged : d.with_postings index (d.postings index) = d := by
      unfold Database.with_postings
      rw [Function.update_eq_self]
    rw [unchanged]
    rfl
  | cons r rest ih =>
    have entry := listed r List.mem_cons_self
    let entries := (d.postings index).erase (r rowid,r content) ++ [(r rowid,r content)]
    have perm : entries.Perm (d.postings index) := List.perm_append_singleton _ _ |>.trans (List.perm_cons_erase entry).symm
    have first : d.fire .update t r (new r) = some (d.with_postings index entries) := by
      rw [Database.fire,fired,List.foldlM_cons,Database.post,if_pos entry]
      change some _ = _
      rw [Database.with_postings_self,with_postings_with_postings,(stays r).1,(stays r).2]
    obtain ⟨entries',later,perm'⟩ := ih (d := d.with_postings index entries) fired fun r' member => by
      rw [Database.with_postings_self]
      exact perm.mem_iff.mpr (listed r' (List.mem_cons_of_mem _ member))
    rw [Database.with_postings_self] at perm'
    refine ⟨entries',?_,perm'.trans perm⟩
    rw [List.foldlM_cons,first]
    change List.foldlM _ _ rest = _
    rw [later,with_postings_with_postings]

variable [DecidableEq C] [FinEnum I] [Nullable V] (env : Env V) {db : Database T C I G V} {column source : C}

/-- The values of one column become those of another. -/
theorem exec_update_column (named : column ∈ db.catalog.names t ∧ source ∈ db.catalog.names t)
    (takes : ∀ r ∈ db.rows t, ∀ c ∈ db.catalog.columns t, c.name = column → c.references = none ∧ c.Admits env.valid (r source))
    (fired : db.catalog.fired .update t = [.remove index rowid content,.enter index rowid content]) (other : rowid ≠ column ∧ content ≠ column)
    (indexed : db.Indexed index t rowid content) :
    ∃ entries, db.exec env (.update_column t column source) = some ((db.overwritten t column fun r => r source).with_postings index entries) ∧
      entries.Perm (db.postings index) := by
  obtain ⟨entries,ran,perm⟩ := foldlM_reenter (d := db.overwritten t column fun r => r source) fired
    (fun r => Function.update r column (r source)) (fun r => ⟨Function.update_of_ne other.1 ..,Function.update_of_ne other.2 ..⟩)
    fun r (stored : r ∈ db.rows t) => indexed.mem_iff.mpr (List.mem_map_of_mem stored)
  refine ⟨entries,exec_eq_some (d := (db.overwritten t column fun r => r source).with_postings index entries) (if_pos named) ?_,perm⟩
  rw [Database.write,Database.update_rows,List.filter_eq_self.mpr fun _ _ => rfl,if_pos]
  · exact ran
  · intro r stored c defined same
    obtain ⟨free,admits⟩ := takes r stored c defined same
    refine ⟨admits,fun _ ref has => ?_⟩
    rw [free] at has
    cases has

/-- A new text index takes in the rows of its table. -/
theorem indexed_of_index_select {env : Env V} {definition : TableDef T C V} {d : Database T C I G V} {if_not_exists : Bool}
    (ran : db.run env [.create_table if_not_exists index definition,.index_select index rowid content t] = some d)
    (absent : db.catalog.tables index = none) (other : t ≠ index) : d.Indexed index t rowid content := by
  rw [run_cons] at ran
  obtain ⟨m,created,rest⟩ := Option.bind_eq_some_iff.mp ran
  obtain ⟨_,_,cleared⟩ := Option.bind_eq_some_iff.mp created
  rw [run_cons] at rest
  obtain ⟨m',filled,last⟩ := Option.bind_eq_some_iff.mp rest
  obtain ⟨_,_,entered⟩ := Option.bind_eq_some_iff.mp filled
  cases last
  cases entered
  simp only [Database.write,absent] at cleared
  cases cleared
  unfold Database.Indexed
  simp [Database.cleared,other]

end index
end MemoryEngine.Relational
