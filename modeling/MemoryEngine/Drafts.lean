import MemoryEngine.RelationalGrowth

/-! What a list of definitions does to every database of a catalog can be read off the
catalog: a draft runs the statements without the rows, and refuses those whose outcome the
rows decide. -/

namespace MemoryEngine.Relational

/-- A catalog, tables without rows in it, and values that are in the rows of some tables. -/
structure Draft (T C I G V : Type) where
  catalog : Catalog T C I G V
  blank : List T
  known : List (T × C × V)

namespace Draft
variable {T C I G V : Type}

structure Fits (d : Draft T C I G V) (db : Database T C I G V) : Prop where
  catalog : db.catalog = d.catalog
  blank : ∀ t ∈ d.blank, db.rows t = []
  known : ∀ x ∈ d.known, ∃ r ∈ db.rows x.1, r x.2.1 = x.2.2

/-- Nothing is known but the catalog. -/
def of (k : Catalog T C I G V) : Draft T C I G V := ⟨k,[],[]⟩

theorem fits_of (db : Database T C I G V) : (of db.catalog).Fits db := ⟨rfl,by simp [of],by simp [of]⟩

end Draft

section drafts
variable {T C I G V : Type} [FinEnum T] [DecidableEq C] [FinEnum I] [FinEnum G] [DecidableEq V] [Nullable V]

/-- The check holds whatever the validity test is. -/
def Check.Settled (c : Check V) (v : V) : Prop :=
  match c with
  | .one_of values => v ∈ values
  | .valid => False

instance (c : Check V) (v : V) : Decidable (c.Settled v) :=
  match c with
  | .one_of values => inferInstanceAs (Decidable (v ∈ values))
  | .valid => inferInstanceAs (Decidable False)

namespace Column

/-- The value meets the constraints of the column in every database that fits. -/
def Settled (d : Draft T C I G V) (c : Column T C V) (v : V) : Prop :=
  (c.not_null = true → v ≠ null) ∧ (∀ check ∈ c.check, v = null ∨ check.Settled v) ∧
    ∀ ref ∈ c.references, ref.column ∈ d.catalog.names ref.table ∧ (v = null ∨ (ref.table,ref.column,v) ∈ d.known)

instance (d : Draft T C I G V) (c : Column T C V) (v : V) : Decidable (c.Settled d v) := by
  unfold Settled
  infer_instance

/-- The initial value of a column that rows can take. -/
def constant (c : Column T C V) : V :=
  match c.initial with
  | some (.literal v) => v
  | _ => null

end Column

section draft
variable (target : Catalog T C I G V) (apart grown : List T) (foreign_keys : Bool)

/-- Every column that the definition or the target puts on the table gets a value that it takes. -/
def Draft.Takes (d : Draft T C I G V) (t : T) (values : List (C × V)) : Prop :=
  (∀ c ∈ d.catalog.columns t, ∃ v ∈ values.lookup c.name, c.Settled d v) ∧
    ∀ c ∈ target.columns t, c.name ∈ d.catalog.names t → ∃ v ∈ values.lookup c.name, c.Settled d v

instance (d : Draft T C I G V) (t : T) (values : List (C × V)) : Decidable (d.Takes target t values) := by
  unfold Draft.Takes
  infer_instance

/-- Some row has the primary key of the values already. -/
def Draft.Taken (d : Draft T C I G V) (t : T) (values : List (C × V)) : Prop :=
  ∃ c ∈ d.catalog.key t, d.catalog.key t = [c] ∧ ∃ v ∈ values.lookup c, v ≠ null ∧ (t,c,v) ∈ d.known

instance (d : Draft T C I G V) (t : T) (values : List (C × V)) : Decidable (d.Taken t values) := by
  unfold Draft.Taken
  infer_instance

/-- The tables whose rows or entries a statement may change. -/
def Statement.subjects : Statement T C I G V → List T
  | .create_table _ t _ => [t]
  | .drop_table _ t => [t]
  | .add_column t _ => [t]
  | .insert _ t _ => [t]
  | .index_select index _ _ _ => [index]
  | _ => []

/-- The statements that define or take away a table or a column. -/
def Statement.defines : Statement T C I G V → Bool
  | .create_table _ _ _ => true
  | .drop_table _ _ => true
  | .add_column _ _ => true
  | .rename_table _ _ => true
  | _ => false

def Statement.draft (s : Statement T C I G V) (d : Draft T C I G V) : Option (Draft T C I G V) :=
  match s with
  | .create_table _ t _ =>
    (s.shape foreign_keys d.catalog).map fun k =>
      if (d.catalog.tables t).isSome then { d with catalog := k } else ⟨k,t :: d.blank,d.known.filter fun x => x.1 ≠ t⟩
  | .create_index _ i definition =>
    if (d.catalog.indexes i).isSome ∨ definition.unique = false ∨ definition.table ∈ d.blank then
      (s.shape foreign_keys d.catalog).map fun k => { d with catalog := k }
    else none
  | .create_trigger _ _ _ => (s.shape foreign_keys d.catalog).map fun k => { d with catalog := k }
  | .drop_index _ _ => (s.shape foreign_keys d.catalog).map fun k => { d with catalog := k }
  | .drop_trigger _ _ => (s.shape foreign_keys d.catalog).map fun k => { d with catalog := k }
  | .drop_table _ t =>
    if t ∈ apart ∧ foreign_keys = false then
      (s.shape foreign_keys d.catalog).map fun k => ⟨k,t :: d.blank,d.known.filter fun x => x.1 ≠ t⟩
    else none
  | .add_column t c =>
    if ∀ c' ∈ target.columns t, c'.name = c.name → c'.Settled d c.constant then
      (s.shape foreign_keys d.catalog).map fun k => ⟨k,d.blank,d.known.filter fun x => x.1 ≠ t ∨ x.2.1 ≠ c.name⟩
    else none
  | .insert true t values =>
    if t ∈ grown ∧ t ∈ d.blank ∧ d.catalog.fired .insert t = [] ∧ d.Takes target t values then
      (s.shape foreign_keys d.catalog).map fun k => ⟨k,d.blank.filter fun u => u ≠ t,((values.filter fun x => values.lookup x.1 = some x.2).map fun x => (t,x.1,x.2)) ++ d.known⟩
    else if d.Taken t values then (s.shape foreign_keys d.catalog).map fun k => { d with catalog := k }
    else none
  | .index_select _ _ _ _ => (s.shape foreign_keys d.catalog).map fun k => { d with catalog := k }
  | _ => none

def drafts (statements : List (Statement T C I G V)) (d : Draft T C I G V) : Option (Draft T C I G V) :=
  statements.foldlM (fun d s => s.draft target apart grown foreign_keys d) d

end draft

/-- From one database to another that fits a draft. -/
structure Advances (valid : V → Bool) (target : Catalog T C I G V) (apart grown subjects : List T) (d : Draft T C I G V) (db db' : Database T C I G V) : Prop where
  fits : d.Fits db'
  keeps : Keeps apart grown db db'
  conforms : Conforms valid target db'
  rows : ∀ u, u ∉ subjects → db'.rows u = db.rows u
  postings : ∀ u, u ∉ subjects → db'.postings u = db.postings u

theorem exec_eq_some {env : Env V} {s : Statement T C I G V} {db d : Database T C I G V} {k : Catalog T C I G V}
    (shaped : s.shape env.foreign_keys db.catalog = some k) (written : db.write env s = some d) : db.exec env s = some { d with catalog := k } := by
  rw [Database.exec,shaped]
  change (db.write env s).bind _ = _
  rw [written]
  rfl

end drafts

section settled
variable {T C I G V : Type} [Nullable V] {valid : V → Bool} {target : Catalog T C I G V} {apart grown subjects more : List T} {d d' : Draft T C I G V}

theorem Advances.trans {db m db' : Database T C I G V} (first : Advances valid target apart grown subjects d db m)
    (second : Advances valid target apart grown more d' m db') : Advances valid target apart grown (subjects ++ more) d' db db' where
  fits := second.fits
  keeps := first.keeps.trans second.keeps
  conforms := second.conforms
  rows u other := by
    rw [List.mem_append,not_or] at other
    exact (second.rows u other.2).trans (first.rows u other.1)
  postings u other := by
    rw [List.mem_append,not_or] at other
    exact (second.postings u other.2).trans (first.postings u other.1)

end settled

section check
variable {V : Type} {valid : V → Bool} {v : V}

theorem Check.Settled.holds {check : Check V} (settled : check.Settled v) : check.Holds valid v := by
  cases check with
  | one_of values => exact settled
  | valid => exact settled.elim

end check

section settled
variable {T C I G V : Type} [Nullable V] {d : Draft T C I G V} {db : Database T C I G V} {valid : V → Bool}

theorem Column.Settled.holds {c : Column T C V} {v : V} (settled : c.Settled d v) (fits : d.Fits db) : c.Holds valid db v := by
  obtain ⟨some_value,checks,refers⟩ := settled
  refine ⟨⟨some_value,fun check has => (checks check has).imp_right Check.Settled.holds⟩,fun ref has => ?_⟩
  obtain ⟨listed,found⟩ := refers ref has
  exact ⟨fits.catalog ▸ listed,found.imp_right fun known => fits.known _ known⟩

/-- A statement that leaves the tables, the rows and the entries alone. -/
theorem advances_of_tables {target : Catalog T C I G V} {apart grown subjects : List T} {k : Catalog T C I G V} (fits : d.Fits db)
    (conforms : Conforms valid target db) (tables : k.tables = d.catalog.tables) :
    Advances valid target apart grown subjects { d with catalog := k } db { db with catalog := k } := by
  have same : k.tables = db.catalog.tables := fits.catalog ▸ tables
  exact
    { fits := ⟨rfl,fits.blank,fits.known⟩
      keeps := Keeps.of_tables same rfl
      conforms := conforms.of_tables same rfl
      rows := fun _ _ => rfl
      postings := fun _ _ => rfl }

end settled

/-- A row into a table without any makes its values known. -/
theorem Draft.Fits.insert {T C I G V : Type} [DecidableEq T] {d : Draft T C I G V} {db : Database T C I G V} {t : T} {r : C → V}
    (fits : d.Fits db) (blank : db.rows t = []) {values : List (T × C × V)} (has : ∀ x ∈ values, x.1 = t ∧ r x.2.1 = x.2.2) :
    (⟨d.catalog,d.blank.filter fun u => u ≠ t,values ++ d.known⟩ : Draft T C I G V).Fits (db.with_rows t [r]) := by
  refine ⟨fits.catalog,fun u listed => ?_,fun x listed => ?_⟩
  · obtain ⟨old,other⟩ := List.mem_filter.mp listed
    rw [db.with_rows_ne t _ (of_decide_eq_true other)]
    exact fits.blank u old
  · rcases List.mem_append.mp listed with new | old
    · obtain ⟨here,given⟩ := has x new
      rw [here,db.with_rows_self]
      exact ⟨r,List.mem_singleton_self r,given⟩
    · obtain ⟨old_row,stored,given⟩ := fits.known x old
      have other : x.1 ≠ t := by
        intro same
        rw [same,blank] at stored
        cases stored
      exact ⟨old_row,(db.with_rows_ne t _ other).symm ▸ stored,given⟩

section subject
variable {T C I G V : Type} [DecidableEq T] [Nullable V] {target : Catalog T C I G V} {apart grown : List T} {d d' : Draft T C I G V}
variable {db db' : Database T C I G V} {valid : V → Bool}

/-- A statement about one table: only that table has to be looked at. -/
theorem Advances.of_subject {t : T} (fits : d'.Fits db') (conforms : Conforms valid target db) (free : Free apart target)
    (tables : ∀ u, u ≠ t → db'.catalog.tables u = db.catalog.tables u) (rows : ∀ u, u ≠ t → db'.rows u = db.rows u)
    (postings : ∀ u, u ≠ t → db'.postings u = db.postings u)
    (kept : t ∉ apart → (db.catalog.tables t).isSome → (db'.catalog.tables t).isSome ∧ (∀ c ∈ db.catalog.names t, c ∈ db'.catalog.names t) ∧
      ∃ more, (t ∉ grown → more = []) ∧ List.Forall₂ (Agree (db.catalog.names t)) (db.rows t ++ more) (db'.rows t))
    (each : ∀ r' ∈ db'.rows t, ∀ c ∈ target.columns t, c.name ∈ db'.catalog.names t →
      (c.name ∈ db.catalog.names t ∧ ∃ r ∈ db.rows t, r' c.name = r c.name) ∨ c.Holds valid db (r' c.name)) :
    Advances valid target apart grown [t] d' db db' := by
  have names : ∀ u, u ≠ t → db'.catalog.names u = db.catalog.names u := fun u other => names_congr (tables u other)
  have keeps : Keeps apart grown db db' := by
    intro u outside present
    by_cases same : u = t
    · subst same
      exact kept outside present
    · exact Keeps.same ((tables u same).symm ▸ present) (names u same) (rows u same)
  refine
    { fits
      keeps
      conforms := conforms.grow free keeps ?_
      rows := fun u other => rows u fun same => other (List.mem_singleton.mpr same)
      postings := fun u other => postings u fun same => other (List.mem_singleton.mpr same) }
  intro u r' stored c required listed
  by_cases same : u = t
  · subst same
    exact (each r' stored c required listed).imp_right fun holds => holds.keeps keeps (free u c required)
  · rw [rows u same] at stored
    rw [names u same] at listed
    exact .inl ⟨listed,r',stored,rfl⟩

/-- A table that is new, or is set apart and goes, is left without rows. -/
theorem advances_cleared {t : T} {k : Catalog T C I G V} (fits : d.Fits db) (conforms : Conforms valid target db) (free : Free apart target)
    (unkept : t ∈ apart ∨ d.catalog.tables t = none) (tables : ∀ u, u ≠ t → k.tables u = db.catalog.tables u) :
    Advances valid target apart grown [t] ⟨k,t :: d.blank,d.known.filter fun x => x.1 ≠ t⟩ db { db.cleared t with catalog := k } := by
  refine Advances.of_subject ⟨rfl,?_,?_⟩ conforms free tables
    (fun u other => db.with_rows_ne t [] other) (fun u other => (db.with_rows t []).with_postings_ne t [] other) ?_ ?_
  · intro u listed
    by_cases same : u = t
    · rw [same]
      exact db.with_rows_self t []
    · exact (db.with_rows_ne t [] same).trans (fits.blank u ((List.mem_cons.mp listed).resolve_left same))
  · intro x listed
    obtain ⟨kept,other⟩ := List.mem_filter.mp listed
    obtain ⟨r,stored,has⟩ := fits.known x kept
    exact ⟨r,(db.with_rows_ne t [] (of_decide_eq_true other)).symm ▸ stored,has⟩
  · intro outside present
    rw [fits.catalog,unkept.resolve_left outside] at present
    cases present
  · intro r' stored
    have none_left : r' ∈ (db.with_rows t []).rows t := stored
    rw [db.with_rows_self] at none_left
    cases none_left

/-- Rows into a table without any. -/
theorem advances_insert {t : T} {r : C → V} (conforms : Conforms valid target db) (free : Free apart target) (grows : t ∈ grown)
    (blank : db.rows t = []) (fits' : d'.Fits (db.with_rows t [r]))
    (holds : ∀ c ∈ target.columns t, c.name ∈ db.catalog.names t → c.Holds valid db (r c.name)) :
    Advances valid target apart grown [t] d' db (db.with_rows t [r]) := by
  refine Advances.of_subject fits' conforms free (fun _ _ => rfl) (fun u other => db.with_rows_ne t _ other) (fun _ _ => rfl) ?_ ?_
  · intro _ present
    refine ⟨present,fun _ listed => listed,[r],fun old => absurd grows old,?_⟩
    rw [blank,db.with_rows_self]
    exact forall₂_agree_refl _ _
  · intro r' stored c required listed
    rw [db.with_rows_self] at stored
    cases List.mem_singleton.mp stored
    exact .inr (holds c required listed)

variable [DecidableEq C]

/-- A new column has one value that the target takes. -/
theorem advances_add_column {t : T} {columns : List (Column T C V)} {primary_key : List C} {without_rowid : Bool} {c : Column T C V} {value : V}
    (fits : d.Fits db) (conforms : Conforms valid target db) (free : Free apart target)
    (present : d.catalog.tables t = some (.table columns primary_key without_rowid)) (new : c.name ∉ columns.map Column.name)
    (settled : ∀ c' ∈ target.columns t, c'.name = c.name → c'.Settled d value) :
    Advances valid target apart grown [t]
      ⟨d.catalog.with_table t (some (.table (columns ++ [c]) primary_key without_rowid)),d.blank,d.known.filter fun x => x.1 ≠ t ∨ x.2.1 ≠ c.name⟩ db
      { db.with_rows t ((db.rows t).map fun r => Function.update r c.name value) with
        catalog := db.catalog.with_table t (some (.table (columns ++ [c]) primary_key without_rowid)) } := by
  have before : db.catalog.names t = columns.map Column.name := by
    rw [Catalog.names,Catalog.columns,fits.catalog,present]
    rfl
  have after : (db.catalog.with_table t (some (.table (columns ++ [c]) primary_key without_rowid))).names t = columns.map Column.name ++ [c.name] := by
    rw [Catalog.names,Catalog.columns_with_table_self]
    exact List.map_append
  have same_rows := db.with_rows_self t ((db.rows t).map fun r => Function.update r c.name value)
  refine Advances.of_subject ⟨by rw [fits.catalog],?_,?_⟩ conforms free (fun u other => db.catalog.with_table_ne other)
    (fun u other => db.with_rows_ne t _ other) (fun _ _ => rfl) ?_ ?_
  · intro u listed
    by_cases same : u = t
    · subst same
      exact same_rows.trans (by rw [fits.blank u listed]; rfl)
    · exact (db.with_rows_ne t _ same).trans (fits.blank u listed)
  · intro x listed
    obtain ⟨kept,other⟩ := List.mem_filter.mp listed
    obtain ⟨r,stored,has⟩ := fits.known x kept
    by_cases same : x.1 = t
    · have apart_column : x.2.1 ≠ c.name := (of_decide_eq_true other).resolve_left fun differ => differ same
      rw [same] at stored
      have updated : Function.update r c.name value ∈ (db.rows t).map fun r => Function.update r c.name value := List.mem_map_of_mem stored
      refine ⟨Function.update r c.name value,?_,(Function.update_of_ne apart_column ..).trans has⟩
      rw [same]
      exact same_rows.symm ▸ updated
    · exact ⟨r,(db.with_rows_ne t _ same).symm ▸ stored,has⟩
  · intro _ _
    refine ⟨by rw [Catalog.with_table_self]; rfl,fun c' listed => ?_,[],fun _ => rfl,?_⟩
    · rw [after]
      exact List.mem_append_left _ (before ▸ listed)
    · refine same_rows.symm ▸ ?_
      rw [List.append_nil,List.forall₂_map_right_iff,List.forall₂_same]
      intro r _ c' listed
      rw [before] at listed
      refine Function.update_of_ne ?_ ..
      rintro rfl
      exact new listed
  · intro r' stored c' required listed
    have updated : r' ∈ (db.rows t).map fun r => Function.update r c.name value := same_rows ▸ stored
    obtain ⟨r,old,rfl⟩ := List.mem_map.mp updated
    by_cases same : c'.name = c.name
    · rw [same,Function.update_self]
      exact .inr ((settled c' required same).holds fits)
    · rw [after] at listed
      have old_name : c'.name ∈ columns.map Column.name := (List.mem_append.mp listed).resolve_right fun last => same (List.mem_singleton.mp last)
      exact .inl ⟨before ▸ old_name,r,old,Function.update_of_ne same ..⟩

end subject

section insertion
variable {T C I G V : Type} [FinEnum T] [FinEnum I] [FinEnum G] [DecidableEq V] [Nullable V]
variable {db : Database T C I G V} {env : Env V} {t : T} {r : C → V}

/-- A row goes in that the constraints take, where no trigger fires. -/
theorem insert_row_quiet (or_ignore : Bool) (quiet : db.catalog.fired .insert t = []) (admits : ∀ c ∈ db.catalog.columns t, c.Admits env.valid (r c.name))
    (keyed : ∀ r' ∈ db.rows t, db.catalog.clash t r' r = false)
    (refers : env.foreign_keys = true → ∀ c ∈ db.catalog.columns t, c.Refers (db.with_rows t (db.rows t ++ [r])).rows (r c.name)) :
    db.insert_row env or_ignore t r = some (db.with_rows t (db.rows t ++ [r])) := by
  unfold Database.insert_row
  rw [if_pos ⟨admits,keyed⟩]
  simp only [if_pos refers]
  exact fire_quiet (d := db.with_rows t (db.rows t ++ [r])) quiet r r

/-- Into a table without rows goes a row that the columns take. -/
theorem insert_row_blank {or_ignore : Bool} (blank : db.rows t = []) (quiet : db.catalog.fired .insert t = [])
    (holds : ∀ c ∈ db.catalog.columns t, c.Holds env.valid db (r c.name)) : db.insert_row env or_ignore t r = some (db.with_rows t [r]) := by
  have inserted := insert_row_quiet or_ignore quiet (fun c listed => (holds c listed).1) (fun r' none_left => by rw [blank] at none_left; cases none_left) ?_
  · rw [blank] at inserted
    exact inserted
  intro _ c listed ref has
  refine ((holds c listed).2 ref has).2.imp_right ?_
  rintro ⟨parent,stored,same⟩
  have other : ref.table ≠ t := by
    rintro rfl
    rw [blank] at stored
    cases stored
  exact ⟨parent,(db.with_rows_ne t _ other).symm ▸ stored,same⟩

/-- A row whose key is there is left out. -/
theorem insert_row_taken {old : C → V} (stored : old ∈ db.rows t) (clash : db.catalog.clash t old r = true) : db.insert_row env true t r = some db := by
  unfold Database.insert_row
  rw [if_neg fun admitted => absurd (admitted.2 old stored) (by rw [clash]; decide)]
  rfl

end insertion

theorem filled_lookup {T C I G V : Type} [DecidableEq C] [Nullable V] {db : Database T C I G V} {env : Env V} {t : T} {values : List (C × V)} {c : C} {v : V}
    (given : values.lookup c = some v) : db.filled env t values c = v := by
  rw [Database.filled,given]
  rfl

theorem filled_holds {T C I G V : Type} [DecidableEq C] [Nullable V] {d : Draft T C I G V} {db : Database T C I G V} {env : Env V} {t : T}
    {values : List (C × V)} {c : Column T C V} (given : ∃ v ∈ values.lookup c.name, c.Settled d v) (fits : d.Fits db) :
    c.Holds env.valid db (db.filled env t values c.name) := by
  obtain ⟨v,given,settled⟩ := given
  rw [filled_lookup given]
  exact settled.holds fits

theorem Column.value_of_addable {T C V : Type} [DecidableEq V] [Nullable V] {env : Env V} {c : Column T C V} {foreign_keys : Bool}
    (addable : c.addable foreign_keys = true) : c.value env = c.constant := by
  unfold Column.addable at addable
  unfold Column.value Column.constant
  cases initial : c.initial with
  | none => rfl
  | some i =>
    cases i with
    | literal v => rfl
    | now => simp [initial] at addable

section spec
variable {T C I G V : Type} [FinEnum T] [DecidableEq C] [FinEnum I] [FinEnum G] [DecidableEq V] [Nullable V]
variable {target : Catalog T C I G V} {apart grown : List T} {d d' : Draft T C I G V} {db : Database T C I G V} {env : Env V}

theorem Draft.Taken.exec {t : T} {values : List (C × V)} (taken : d.Taken t values) (fits : d.Fits db) :
    db.write env (.insert true t values) = some db := by
  obtain ⟨c,_,key,v,given,some_value,known⟩ := taken
  obtain ⟨old,stored,same⟩ := fits.known _ known
  refine insert_row_taken stored ?_
  have equal : db.filled env t values c = old c := (filled_lookup given).trans same.symm
  have kept : old c ≠ null := by
    rw [show old c = v from same]
    exact some_value
  unfold Catalog.clash
  rw [fits.catalog,key]
  simp [same_key,equal,kept]

/-- A statement that defines no table leaves the tables. -/
theorem tables_of_shape {s : Statement T C I G V} {foreign_keys : Bool} {k k' : Catalog T C I G V} (shape : s.shape foreign_keys k = some k')
    (plain : s.defines = false) : k'.tables = k.tables := by
  cases s <;> unfold Statement.shape at shape <;> grind [Statement.defines]

theorem tables_of_drop {if_exists foreign_keys : Bool} {t u : T} {k k' : Catalog T C I G V}
    (shape : (Statement.drop_table if_exists t : Statement T C I G V).shape foreign_keys k = some k') (other : u ≠ t) : k'.tables u = k.tables u := by
  simp only [Statement.shape] at shape
  split at shape
  · split at shape
    · cases shape
      rfl
    · cases shape
  · cases shape
    exact Function.update_of_ne other ..

/-- `IF NOT EXISTS` leaves what is there. -/
theorem exec_create_table_again {t : T} {definition : TableDef T C V} (present : (db.catalog.tables t).isSome = true) :
    db.exec env (.create_table true t definition) = some db := by
  have written : db.write env (.create_table true t definition) = some db := congrArg some (if_pos present)
  obtain ⟨old,found⟩ := Option.isSome_iff_exists.mp present
  refine (exec_eq_some (k := db.catalog) ?_ written).trans rfl
  simp only [Statement.shape,found]
  rfl

theorem exec_create_index_again {i : I} {definition : IndexDef T C V} (present : (db.catalog.indexes i).isSome = true) :
    db.exec env (.create_index true i definition) = some db := by
  have written : db.write env (.create_index true i definition) = some db := if_pos (.inl present)
  obtain ⟨old,found⟩ := Option.isSome_iff_exists.mp present
  refine (exec_eq_some (k := db.catalog) ?_ written).trans rfl
  simp only [Statement.shape,found]
  rfl

/-- What a draft says of a statement happens. -/
theorem exec_of_draft {s : Statement T C I G V} (drafted : s.draft target apart grown env.foreign_keys d = some d') (free : Free apart target)
    (fits : d.Fits db) (conforms : Conforms env.valid target db) :
    ∃ db', db.exec env s = some db' ∧ Advances env.valid target apart grown s.subjects d' db db' := by
  have shaped : ∀ {k}, s.shape env.foreign_keys d.catalog = some k → s.shape env.foreign_keys db.catalog = some k := fun same => fits.catalog ▸ same
  cases s with
  | create_table if_not_exists t definition =>
    obtain ⟨k,shape,rfl⟩ := Option.map_eq_some_iff.mp drafted
    cases present : d.catalog.tables t with
    | some old =>
      have written : db.write env (.create_table if_not_exists t definition) = some db := by
        rw [Database.write,fits.catalog,present]
        rfl
      have tables : k.tables = d.catalog.tables := by
        simp only [Statement.shape,present] at shape
        split at shape
        · cases shape
          rfl
        · cases shape
      exact ⟨_,exec_eq_some (shaped shape) written,advances_of_tables fits conforms tables⟩
    | none =>
      have written : db.write env (.create_table if_not_exists t definition) = some (db.cleared t) := by
        rw [Database.write,fits.catalog,present]
        rfl
      have equal : d.catalog.with_table t (some definition) = k := by simpa only [Statement.shape,present,Option.some.injEq] using shape
      refine ⟨_,exec_eq_some (shaped shape) written,?_⟩
      rw [← equal,if_neg (by simp)]
      exact advances_cleared fits conforms free (.inr present) fun u other => by rw [fits.catalog,Catalog.with_table_ne _ other]
  | create_index if_not_exists i definition =>
    simp only [Statement.draft] at drafted
    split at drafted
    · rename_i allowed
      obtain ⟨k,shape,rfl⟩ := Option.map_eq_some_iff.mp drafted
      have written : db.write env (.create_index if_not_exists i definition) = some db := by
        rw [Database.write,if_pos]
        rw [fits.catalog]
        refine allowed.imp_right fun rest => rest.imp_right fun blank => ?_
        rw [fits.blank _ blank]
        exact List.Pairwise.nil
      exact ⟨_,exec_eq_some (shaped shape) written,advances_of_tables fits conforms (tables_of_shape shape rfl)⟩
    · cases drafted
  | create_trigger | drop_index | drop_trigger =>
    obtain ⟨k,shape,rfl⟩ := Option.map_eq_some_iff.mp drafted
    exact ⟨_,exec_eq_some (shaped shape) rfl,advances_of_tables fits conforms (tables_of_shape shape rfl)⟩
  | drop_table if_exists t =>
    simp only [Statement.draft] at drafted
    split at drafted
    · rename_i allowed
      obtain ⟨k,shape,rfl⟩ := Option.map_eq_some_iff.mp drafted
      have written : db.write env (.drop_table if_exists t) = some (db.cleared t) := by
        rw [Database.write,if_neg]
        rw [allowed.2]
        simp
      exact ⟨_,exec_eq_some (shaped shape) written,
        advances_cleared fits conforms free (.inl allowed.1) fun u other => (tables_of_drop shape other).trans (by rw [fits.catalog])⟩
    · cases drafted
  | add_column t column =>
    simp only [Statement.draft] at drafted
    split at drafted
    · rename_i settled
      obtain ⟨k,shape,rfl⟩ := Option.map_eq_some_iff.mp drafted
      have shaped' := shaped shape
      simp only [Statement.shape] at shape
      split at shape
      · rename_i columns primary_key without_rowid present
        split at shape
        · rename_i addable
          have value : column.value env = column.constant := Column.value_of_addable addable.2
          cases shape
          refine ⟨_,exec_eq_some shaped' rfl,?_⟩
          rw [value]
          have advances : Advances env.valid target apart grown _ _ _ _ := advances_add_column fits conforms free present addable.1 settled
          rw [fits.catalog] at advances
          exact advances
        · cases shape
      · cases shape
    · cases drafted
  | insert or_ignore t values =>
    cases or_ignore with
    | false => cases drafted
    | true =>
      simp only [Statement.draft] at drafted
      split at drafted
      · rename_i allowed
        obtain ⟨grows,blank,quiet,takes⟩ := allowed
        obtain ⟨k,shape,rfl⟩ := Option.map_eq_some_iff.mp drafted
        have same : d.catalog = k := by
          simp only [Statement.shape] at shape
          split at shape
          · exact Option.some.inj shape
          · cases shape
        have own : ∀ c ∈ db.catalog.columns t, c.Holds env.valid db (db.filled env t values c.name) := by
          rw [fits.catalog]
          exact fun c listed => filled_holds (takes.1 c listed) fits
        have later : ∀ c ∈ target.columns t, c.name ∈ db.catalog.names t → c.Holds env.valid db (db.filled env t values c.name) := by
          intro c required listed
          rw [fits.catalog] at listed
          exact filled_holds (takes.2 c required listed) fits
        have written : db.write env (.insert true t values) = some (db.with_rows t [db.filled env t values]) :=
          insert_row_blank (fits.blank t blank) (fits.catalog ▸ quiet) own
        refine ⟨_,exec_eq_some (shaped shape) written,?_⟩
        subst same
        have kept : ({ db.with_rows t [db.filled env t values] with catalog := d.catalog } : Database T C I G V) = db.with_rows t [db.filled env t values] := by
          rw [← fits.catalog]
          rfl
        rw [kept]
        refine advances_insert conforms free grows (fits.blank t blank) (fits.insert (fits.blank t blank) fun x new => ?_) later
        obtain ⟨y,given,rfl⟩ := List.mem_map.mp new
        exact ⟨rfl,filled_lookup (of_decide_eq_true (List.mem_filter.mp given).2)⟩
      · split at drafted
        · rename_i taken
          obtain ⟨k,shape,rfl⟩ := Option.map_eq_some_iff.mp drafted
          exact ⟨_,exec_eq_some (shaped shape) (taken.exec fits),advances_of_tables fits conforms (tables_of_shape shape rfl)⟩
        · cases drafted
  | index_select index rowid content source =>
    obtain ⟨k,shape,rfl⟩ := Option.map_eq_some_iff.mp drafted
    refine ⟨_,exec_eq_some (shaped shape) rfl,?_⟩
    have advances : Advances env.valid target apart grown [] _ _ _ := advances_of_tables fits conforms (tables_of_shape shape rfl)
    exact
      { fits := ⟨rfl,advances.fits.blank,advances.fits.known⟩
        keeps := advances.keeps
        conforms := advances.conforms
        rows := fun _ _ => rfl
        postings := fun u other => db.with_postings_ne index _ fun same => other (List.mem_singleton.mpr same) }
  | rename_table | upsert | insert_select | update_column | delete_where => cases drafted

/-- And of a list of statements. -/
theorem run_of_drafts {statements : List (Statement T C I G V)} (drafted : drafts target apart grown env.foreign_keys statements d = some d')
    (free : Free apart target) (fits : d.Fits db) (conforms : Conforms env.valid target db) :
    ∃ db', db.run env statements = some db' ∧ Advances env.valid target apart grown (statements.flatMap Statement.subjects) d' db db' := by
  induction statements generalizing d db with
  | nil =>
    cases drafted
    exact ⟨db,rfl,⟨fits,Keeps.refl db,conforms,fun _ _ => rfl,fun _ _ => rfl⟩⟩
  | cons s rest ih =>
    obtain ⟨m,first,later⟩ := Option.bind_eq_some_iff.mp drafted
    obtain ⟨mid,ran,advances⟩ := exec_of_draft first free fits conforms
    obtain ⟨db',ran',advances'⟩ := ih later advances.fits advances.conforms
    refine ⟨db',?_,advances.trans advances'⟩
    change (db.exec env s).bind _ = _
    rw [ran]
    exact ran'

/-- And of a list of statements after others. -/
theorem run_then_drafts {done more : List (Statement T C I G V)} {m : Database T C I G V} (free : Free apart target) (ran : db.run env done = some m)
    (conforms : Conforms env.valid target m)
    (drafted : ∀ k ∈ shapes env.foreign_keys done db.catalog, (drafts target apart grown env.foreign_keys more (Draft.of k)).isSome = true) :
    ∃ m' d', db.run env (done ++ more) = some m' ∧ m.run env more = some m' ∧
      Advances env.valid target apart grown (more.flatMap Statement.subjects) d' m m' := by
  obtain ⟨d',drafted⟩ := Option.isSome_iff_exists.mp (drafted m.catalog (shapes_of_run ran))
  obtain ⟨m',later,advances⟩ := run_of_drafts drafted free (Draft.fits_of m) conforms
  refine ⟨m',d',?_,later,advances⟩
  rw [run_append,ran]
  exact later

end spec
end MemoryEngine.Relational
