import MemoryEngine.Relational

/-! A database against a later schema: the rows meet the constraints that the later schema
puts on the columns they have so far, and they keep their values while tables and columns
are added. -/

namespace MemoryEngine.Relational

section agree
variable {C V : Type} {columns : List C} {r r' r'' : C → V}

theorem Agree.refl (columns : List C) (r : C → V) : Agree columns r r := fun _ _ => rfl

theorem Agree.trans {more : List C} (first : Agree columns r r') (second : Agree more r' r'') (sub : ∀ c ∈ columns, c ∈ more) :
    Agree columns r r'' := fun c listed => (second c (sub c listed)).trans (first c listed)

end agree

theorem names_subset_columns {T C I G V : Type} {k : Catalog T C I G V} {t : T} {c : C} (listed : c ∈ k.names t) : (k.tables t).isSome := by
  cases present : k.tables t with
  | none => simp [Catalog.names,Catalog.columns,present] at listed
  | some _ => rfl

section growth
variable {T C I G V : Type} {apart grown : List T} {db m db' : Database T C I G V}

/-- The tables stay with their columns, and their rows keep the values in them. Some tables
    are set apart, and some may get rows after those they have. -/
def Keeps (apart grown : List T) (db db' : Database T C I G V) : Prop :=
  ∀ t, t ∉ apart → (db.catalog.tables t).isSome → (db'.catalog.tables t).isSome ∧ (∀ c ∈ db.catalog.names t, c ∈ db'.catalog.names t) ∧
    ∃ more, (t ∉ grown → more = []) ∧ List.Forall₂ (Agree (db.catalog.names t)) (db.rows t ++ more) (db'.rows t)

theorem forall₂_agree_refl (columns : List C) (rows : List (C → V)) : List.Forall₂ (Agree columns) rows rows := by
  rw [List.forall₂_same]
  exact fun r _ => Agree.refl columns r

theorem forall₂_agree_trans {columns more : List C} (sub : ∀ c ∈ columns, c ∈ more) {a b c : List (C → V)}
    (first : List.Forall₂ (Agree columns) a b) (second : List.Forall₂ (Agree more) b c) : List.Forall₂ (Agree columns) a c := by
  induction first generalizing c with
  | nil =>
    cases second
    exact .nil
  | cons head _ ih =>
    cases second with
    | cons head' tail' => exact .cons (head.trans head' sub) (ih tail')

theorem names_congr {k k' : Catalog T C I G V} {t : T} (same : k'.tables t = k.tables t) : k'.names t = k.names t := by
  rw [Catalog.names,Catalog.columns,same]
  rfl

namespace Keeps

/-- A table with the same columns and rows. -/
theorem same {t : T} (there : (db'.catalog.tables t).isSome) (names : db'.catalog.names t = db.catalog.names t) (rows : db'.rows t = db.rows t) :
    (db'.catalog.tables t).isSome ∧ (∀ c ∈ db.catalog.names t, c ∈ db'.catalog.names t) ∧
      ∃ more, (t ∉ grown → more = []) ∧ List.Forall₂ (Agree (db.catalog.names t)) (db.rows t ++ more) (db'.rows t) := by
  rw [names,rows]
  refine ⟨there,fun _ listed => listed,[],fun _ => rfl,?_⟩
  rw [List.append_nil]
  exact forall₂_agree_refl _ _

/-- Nothing but indexes and triggers changes. -/
theorem of_tables (tables : db'.catalog.tables = db.catalog.tables) (rows : db'.rows = db.rows) : Keeps apart grown db db' :=
  fun t _ present => same (tables ▸ present) (names_congr (congrFun tables t)) (congrFun rows t)

theorem refl (db : Database T C I G V) : Keeps apart grown db db := of_tables rfl rfl

theorem trans (first : Keeps apart grown db m) (second : Keeps apart grown m db') : Keeps apart grown db db' := by
  intro t other present
  obtain ⟨there,names,more,known,rows⟩ := first t other present
  obtain ⟨there',names',more',known',rows'⟩ := second t other there
  refine ⟨there',fun c listed => names' c (names c listed),more ++ more',fun old => ?_,?_⟩
  · rw [known old,known' old]
    rfl
  · rw [← List.append_assoc]
    exact forall₂_agree_trans names (List.rel_append rows (forall₂_agree_refl _ more')) rows'

/-- A row has a counterpart after the growth. -/
theorem row (keeps : Keeps apart grown db db') {t : T} (other : t ∉ apart) (present : (db.catalog.tables t).isSome) {r : C → V} (stored : r ∈ db.rows t) :
    ∃ r' ∈ db'.rows t, Agree (db.catalog.names t) r r' := by
  obtain ⟨_,_,more,_,rows⟩ := keeps t other present
  obtain ⟨i,inside,at_i⟩ := List.mem_iff_getElem.mp (List.mem_append_left more stored)
  have inside' : i < (db'.rows t).length := rows.length_eq ▸ inside
  refine ⟨(db'.rows t)[i],List.getElem_mem inside',?_⟩
  rw [← at_i]
  exact rows.get inside inside'

/-- The tables that got rows are new. -/
theorem exact (keeps : Keeps apart grown db db') (new : ∀ t ∈ grown, db.catalog.tables t = none) : Keeps apart [] db db' := by
  intro t other present
  obtain ⟨there,names,more,known,rows⟩ := keeps t other present
  refine ⟨there,names,more,fun _ => known fun listed => ?_,rows⟩
  rw [new t listed] at present
  cases present

/-- With no table that got rows, the rows correspond one to one. -/
theorem rows (keeps : Keeps apart [] db db') {t : T} (other : t ∉ apart) (present : (db.catalog.tables t).isSome) :
    List.Forall₂ (Agree (db.catalog.names t)) (db.rows t) (db'.rows t) := by
  obtain ⟨_,_,more,known,rows⟩ := keeps t other present
  rw [known List.not_mem_nil,List.append_nil] at rows
  exact rows

end Keeps

variable [Nullable V]

/-- The value meets the constraints of the column, and what the column refers to is there. -/
def Column.Holds (valid : V → Bool) (db : Database T C I G V) (c : Column T C V) (v : V) : Prop :=
  c.Admits valid v ∧ ∀ ref ∈ c.references, ref.column ∈ db.catalog.names ref.table ∧ (v = null ∨ ∃ r ∈ db.rows ref.table, r ref.column = v)

/-- The rows meet the constraints of a target on the columns they have. -/
def Conforms (valid : V → Bool) (target : Catalog T C I G V) (db : Database T C I G V) : Prop :=
  ∀ t, ∀ r ∈ db.rows t, ∀ c ∈ target.columns t, c.name ∈ db.catalog.names t → c.Holds valid db (r c.name)

instance [DecidableEq C] [DecidableEq V] (valid : V → Bool) (db : Database T C I G V) (c : Column T C V) (v : V) : Decidable (c.Holds valid db v) := by
  unfold Column.Holds
  infer_instance

instance [FinEnum T] [DecidableEq C] [DecidableEq V] (valid : V → Bool) (target : Catalog T C I G V) (db : Database T C I G V) :
    Decidable (Conforms valid target db) := by
  unfold Conforms
  infer_instance

/-- No column of the target refers to a table that is set apart. -/
def Free (apart : List T) (target : Catalog T C I G V) : Prop :=
  ∀ t, ∀ c ∈ target.columns t, ∀ ref ∈ c.references, ref.table ∉ apart

variable {valid : V → Bool} {target : Catalog T C I G V}

/-- What holds of a value still holds as the database grows. -/
theorem Column.Holds.keeps {c : Column T C V} {v : V} (holds : c.Holds valid db v) (keeps : Keeps apart grown db db')
    (free : ∀ ref ∈ c.references, ref.table ∉ apart) : c.Holds valid db' v := by
  refine ⟨holds.1,fun ref has => ?_⟩
  obtain ⟨listed,found⟩ := holds.2 ref has
  have present := names_subset_columns listed
  refine ⟨(keeps ref.table (free ref has) present).2.1 _ listed,found.imp_right ?_⟩
  rintro ⟨r,stored,same⟩
  obtain ⟨r',stored',agree⟩ := keeps.row (free ref has) present stored
  exact ⟨r',stored',(agree _ listed).trans same⟩

/-- Every value is an old one or holds. -/
theorem Conforms.grow (conforms : Conforms valid target db) (free : Free apart target) (keeps : Keeps apart grown db db')
    (each : ∀ t, ∀ r' ∈ db'.rows t, ∀ c ∈ target.columns t, c.name ∈ db'.catalog.names t →
      (c.name ∈ db.catalog.names t ∧ ∃ r ∈ db.rows t, r' c.name = r c.name) ∨ c.Holds valid db' (r' c.name)) : Conforms valid target db' := by
  intro t r' stored c required listed
  rcases each t r' stored c required listed with ⟨before,r,was,same⟩ | holds
  · rw [same]
    exact (conforms t r was c required before).keeps keeps (free t c required)
  · exact holds

theorem Conforms.of_tables (conforms : Conforms valid target db) (tables : db'.catalog.tables = db.catalog.tables) (rows : db'.rows = db.rows) :
    Conforms valid target db' := by
  have names : db'.catalog.names = db.catalog.names := funext fun t => names_congr (congrFun tables t)
  intro t r stored c required listed
  rw [rows] at stored
  rw [names] at listed
  obtain ⟨admits,refers⟩ := conforms t r stored c required listed
  refine ⟨admits,fun ref has => ?_⟩
  rw [names,rows]
  exact refers ref has

end growth

section aside
variable {T C I G V : Type} [DecidableEq T] {apart grown : List T} {db : Database T C I G V} {t : T} {rows : List (C → V)}

/-- Rows of a table that is set apart. -/
theorem Keeps.with_rows (outside : t ∈ apart) : Keeps apart grown db (db.with_rows t rows) := by
  intro u inside present
  have other : u ≠ t := by
    rintro rfl
    exact inside outside
  exact Keeps.same present rfl (db.with_rows_ne t rows other)

variable [Nullable V] {valid : V → Bool} {target : Catalog T C I G V}

theorem Conforms.with_rows (conforms : Conforms valid target db) (free : Free apart target) (outside : t ∈ apart)
    (each : ∀ r' ∈ rows, ∀ c ∈ target.columns t, c.name ∈ db.catalog.names t → (∃ r ∈ db.rows t, r' c.name = r c.name) ∨ c.Holds valid db (r' c.name)) :
    Conforms valid target (db.with_rows t rows) := by
  have keeps : Keeps apart [] db (db.with_rows t rows) := Keeps.with_rows outside
  refine conforms.grow free keeps fun u r' stored c required listed => ?_
  by_cases same : u = t
  · subst same
    rw [db.with_rows_self] at stored
    exact (each r' stored c required listed).imp (fun old => ⟨listed,old⟩) fun holds => holds.keeps keeps (free u c required)
  · rw [db.with_rows_ne t rows same] at stored
    exact .inl ⟨listed,r',stored,rfl⟩

end aside
end MemoryEngine.Relational
