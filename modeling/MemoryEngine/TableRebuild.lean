import MemoryEngine.Drafts

/-! A table is rebuilt: its rows are copied into a new table with the same columns and other
constraints, and the new table takes its name. Foreign keys are not enforced meanwhile. -/

namespace MemoryEngine.Relational

section support
variable {T C I G V : Type}

theorem with_rows_with_rows [DecidableEq T] (db : Database T C I G V) (t : T) (rows rows' : List (C → V)) :
    (db.with_rows t rows).with_rows t rows' = db.with_rows t rows' := by
  unfold Database.with_rows
  simp

theorem lookup_each [DecidableEq C] (columns : List C) (r : C → V) {c : C} (listed : c ∈ columns) :
    (columns.map fun c => (c,r c)).lookup c = some (r c) := by
  induction columns with
  | nil => cases listed
  | cons head rest ih =>
    rw [List.map_cons,List.lookup_cons]
    by_cases same : c = head
    · simp [same]
    · simp only [beq_eq_false_iff_ne.mpr same]
      exact ih ((List.mem_cons.mp listed).resolve_left same)

/-- The row that a row of the source becomes. -/
def Database.copied [DecidableEq C] [Nullable V] (env : Env V) (db : Database T C I G V) (t : T) (columns : List C) (r : C → V) : C → V :=
  db.filled env t (columns.map fun c => (c,r c))

theorem agree_copied [DecidableEq C] [Nullable V] (env : Env V) (db : Database T C I G V) (t : T) (columns : List C) (r : C → V) :
    Agree columns r (db.copied env t columns r) :=
  fun _ listed => filled_lookup (lookup_each columns r listed)

theorem columns_renamed [DecidableEq T] (t fresh : T) (definition : TableDef T C V) :
    (definition.renamed t fresh).columns.map Column.name = definition.columns.map Column.name := by
  cases definition with
  | table columns primary_key without_rowid =>
    simp only [TableDef.renamed,TableDef.columns,List.map_map]
    rfl
  | fts5 => rfl

theorem same_key_congr [DecidableEq C] [DecidableEq V] [Nullable V] {key : List C} {a b a' b' : C → V} (first : ∀ c ∈ key, a' c = a c)
    (second : ∀ c ∈ key, b' c = b c) : same_key key a' b' = same_key key a b := by
  unfold same_key
  congr 1
  rw [Bool.eq_iff_iff,List.all_eq_true,List.all_eq_true]
  refine forall₂_congr fun c named => ?_
  rw [first c named,second c named]

/-- Rows that agree on the key are as distinct as before. -/
theorem distinct_of_agree [DecidableEq C] [DecidableEq V] [Nullable V] {columns key : List C} {rows rows' : List (C → V)}
    (agree : List.Forall₂ (Agree columns) rows rows') (named : ∀ c ∈ key, c ∈ columns) (distinct : rows.Pairwise fun r r' => same_key key r r' = false) :
    rows'.Pairwise fun r r' => same_key key r r' = false := by
  rw [List.pairwise_iff_getElem] at distinct ⊢
  intro i j inside_i inside_j less
  have inside_i' : i < rows.length := agree.length_eq ▸ inside_i
  have inside_j' : j < rows.length := agree.length_eq ▸ inside_j
  rw [← distinct i j inside_i' inside_j' less]
  exact same_key_congr (fun c listed => agree.get inside_i' inside_i c (named c listed)) fun c listed => agree.get inside_j' inside_j c (named c listed)

theorem key_named {columns : List (Column T C V)} {c : C} (named : c ∈ (columns.filter Column.primary_key).map Column.name) : c ∈ columns.map Column.name := by
  obtain ⟨column,member,rfl⟩ := List.mem_map.mp named
  exact List.mem_map_of_mem (List.mem_filter.mp member).1

end support

section rebuilt
variable {T C I G V : Type} [FinEnum T] [FinEnum G] [Nullable V]

/-- The new definition has the columns of the table, and none of its constraints on values
    is beyond those of the target. -/
structure Rebuildable (target k : Catalog T C I G V) (t fresh : T) (columns : List (Column T C V)) : Prop where
  other : t ≠ fresh
  present : (k.tables t).isSome
  unused : k.tables fresh = none
  listed : ∀ c ∈ columns, c.name ∈ k.names t
  complete : ∀ c ∈ k.names t, c ∈ columns.map Column.name
  unindexed : ∀ i, ∀ d ∈ k.indexes i, d.table ≠ fresh
  quiet : k.fired .insert fresh = []
  constraints : ∀ c ∈ columns, ∃ c' ∈ target.columns t, c'.name = c.name ∧ (c.not_null = true → c'.not_null = true) ∧ ∀ check ∈ c.check, check ∈ c'.check

/-- The rows of the table are those from before, in the new columns. -/
structure Rebuilt (db : Database T C I G V) (t fresh : T) (columns : List (Column T C V)) (db' : Database T C I G V) : Prop where
  present : (db'.catalog.tables t).isSome
  names : db'.catalog.names t = columns.map Column.name
  rows : List.Forall₂ (Agree (columns.map Column.name)) (db.rows t) (db'.rows t)
  left : db'.rows fresh = []
  tables : ∀ u, u ∉ [t,fresh] → (db.catalog.tables u).isSome → (db'.catalog.tables u).isSome
  names_other : ∀ u, u ∉ [t,fresh] → db'.catalog.names u = db.catalog.names u
  rows_other : ∀ u, u ∉ [t,fresh] → db'.rows u = db.rows u
  postings_other : ∀ u, u ∉ [t,fresh] → db'.postings u = db.postings u

variable {target : Catalog T C I G V} {apart grown : List T} {db : Database T C I G V} {t fresh : T} {columns : List (Column T C V)}

/-- A rebuilt table keeps its rows, which still conform. -/
theorem Rebuilt.advances {db' : Database T C I G V} {valid : V → Bool} (rebuilt : Rebuilt db t fresh columns db')
    (rebuildable : Rebuildable target db.catalog t fresh columns) (free : Free apart target) (conforms : Conforms valid target db) :
    Advances valid target apart grown [t,fresh] (Draft.of db'.catalog) db db' := by
  have keeps : Keeps apart grown db db' := by
    intro u _ there
    by_cases same : u = t
    · subst same
      refine ⟨rebuilt.present,fun c named => rebuilt.names ▸ rebuildable.complete c named,[],fun _ => rfl,?_⟩
      rw [List.append_nil]
      exact rebuilt.rows.imp fun {_ _} agree c named => agree c (rebuildable.complete c named)
    · have outside : u ∉ [t,fresh] := by
        simp only [List.mem_cons,List.not_mem_nil,or_false,not_or]
        refine ⟨same,?_⟩
        rintro rfl
        rw [rebuildable.unused] at there
        cases there
      exact Keeps.same (rebuilt.tables u outside there) (rebuilt.names_other u outside) (rebuilt.rows_other u outside)
  refine ⟨Draft.fits_of db',keeps,conforms.grow free keeps ?_,rebuilt.rows_other,rebuilt.postings_other⟩
  intro u r' stored c _ named
  by_cases same : u = t
  · subst same
    obtain ⟨i,inside',rfl⟩ := List.mem_iff_getElem.mp stored
    have inside : i < (db.rows u).length := rebuilt.rows.length_eq ▸ inside'
    rw [rebuilt.names] at named
    obtain ⟨column,member,is_name⟩ := List.mem_map.mp named
    exact .inl ⟨is_name ▸ rebuildable.listed column member,(db.rows u)[i],List.getElem_mem inside,rebuilt.rows.get inside inside' _ named⟩
  · by_cases left : u = fresh
    · rw [left,rebuilt.left] at stored
      cases stored
    · have outside : u ∉ [t,fresh] := by simp [same,left]
      rw [rebuilt.rows_other u outside] at stored
      rw [rebuilt.names_other u outside] at named
      exact .inl ⟨named,r',stored,rfl⟩

end rebuilt

section steps
variable {T C I G V : Type} [DecidableEq T] (db : Database T C I G V) {t fresh u : T} {columns : List (Column T C V)}

/-- The table under its fresh name, still without rows. -/
def Database.begun (fresh : T) (columns : List (Column T C V)) : Database T C I G V :=
  { db.cleared fresh with catalog := db.catalog.with_table fresh (some (.table columns)) }

theorem begun_names : (db.begun fresh columns).catalog.names fresh = columns.map Column.name := by
  rw [Catalog.names,Database.begun,db.catalog.columns_with_table_self]
  rfl

/-- The fresh table in the place of the other. -/
def Database.replaced (t fresh : T) (columns : List (Column T C V)) : Database T C I G V :=
  { ((((db.cleared t).cleared fresh).with_rows t ((db.cleared t).rows fresh)).with_postings t ((db.cleared t).postings fresh)) with
    catalog := (db.catalog.without t).renamed fresh t (.table columns) }

theorem replaced_rows (other : t ≠ fresh) : (db.replaced t fresh columns).rows t = db.rows fresh :=
  (((db.cleared t).cleared fresh).with_rows_self t _).trans (db.with_rows_ne t [] other.symm)

theorem replaced_rows_ne (away : u ≠ t) (away' : u ≠ fresh) : (db.replaced t fresh columns).rows u = db.rows u :=
  (((db.cleared t).cleared fresh).with_rows_ne t _ away).trans (((db.cleared t).with_rows_ne fresh [] away').trans (db.with_rows_ne t [] away))

theorem replaced_left (other : t ≠ fresh) : (db.replaced t fresh columns).rows fresh = [] :=
  (((db.cleared t).cleared fresh).with_rows_ne t _ other.symm).trans ((db.cleared t).with_rows_self fresh [])

theorem replaced_postings_ne (away : u ≠ t) (away' : u ≠ fresh) : (db.replaced t fresh columns).postings u = db.postings u :=
  ((((db.cleared t).cleared fresh).with_rows t _).with_postings_ne t _ away).trans
    ((((db.cleared t).with_rows fresh []).with_postings_ne fresh [] away').trans ((db.with_rows t []).with_postings_ne t [] away))

theorem replaced_tables_ne (away : u ≠ t) (away' : u ≠ fresh) :
    (db.replaced t fresh columns).catalog.tables u = (db.catalog.tables u).map (TableDef.renamed fresh t) := by
  rw [show (db.replaced t fresh columns).catalog = (db.catalog.without t).renamed fresh t (.table columns) from rfl,
    Catalog.renamed_ne _ _ _ _ away' away,Catalog.without_ne _ _ away]

end steps

section rebuild
variable {T C I G V : Type} [FinEnum T] [DecidableEq C] [FinEnum I] [FinEnum G] [DecidableEq V] [Nullable V] {env : Env V}

/-- All rows go in when the constraints take each of them and no two clash. -/
theorem insert_each {t : T} (db : Database T C I G V) (columns : List C) (rows : List (C → V)) (off : env.foreign_keys = false)
    (quiet : db.catalog.fired .insert t = [])
    (admits : ∀ r ∈ rows, ∀ c ∈ db.catalog.columns t, c.Admits env.valid (db.copied env t columns r c.name))
    (keyed : (db.rows t ++ rows.map (db.copied env t columns)).Pairwise fun r r' => db.catalog.clash t r r' = false) :
    rows.foldlM (fun d r => d.insert_row env false t (d.filled env t (columns.map fun c => (c,r c)))) db =
      some (db.with_rows t (db.rows t ++ rows.map (db.copied env t columns))) := by
  induction rows generalizing db with
  | nil =>
    have unchanged : db.with_rows t (db.rows t) = db := by
      unfold Database.with_rows
      rw [Function.update_eq_self]
    rw [List.map_nil,List.append_nil,unchanged]
    rfl
  | cons r rest ih =>
    have inserted : db.insert_row env false t (db.copied env t columns r) = some (db.with_rows t (db.rows t ++ [db.copied env t columns r])) :=
      insert_row_quiet false quiet (admits r List.mem_cons_self) (fun r' old => (List.pairwise_append.mp keyed).2.2 r' old _ (by simp))
        fun on => absurd on (by rw [off]; decide)
    have assembled : (db.with_rows t (db.rows t ++ [db.copied env t columns r])).rows t ++
        rest.map ((db.with_rows t (db.rows t ++ [db.copied env t columns r])).copied env t columns) =
        db.rows t ++ (r :: rest).map (db.copied env t columns) := by
      rw [Database.with_rows_self,List.append_assoc]
      rfl
    have later := ih (db.with_rows t (db.rows t ++ [db.copied env t columns r])) quiet
      (fun r' listed => admits r' (List.mem_cons_of_mem _ listed)) (by rw [assembled]; exact keyed)
    rw [assembled,with_rows_with_rows] at later
    rw [List.foldlM_cons]
    change (db.insert_row env false t (db.copied env t columns r)).bind _ = _
    rw [inserted]
    exact later

variable {target : Catalog T C I G V} {apart grown : List T} {db : Database T C I G V} {t fresh : T} {columns : List (Column T C V)}

theorem exec_begun (unused : db.catalog.tables fresh = none) : db.exec env (.create_table false fresh (.table columns)) = some (db.begun fresh columns) := by
  refine exec_eq_some (d := db.cleared fresh) ?_ ?_
  · simp only [Statement.shape,unused]
  · rw [Database.write,unused]
    rfl

/-- The fresh table takes the rows: the target asks no less of them. -/
theorem exec_copied (off : env.foreign_keys = false) (rebuildable : Rebuildable target db.catalog t fresh columns) (conforms : Conforms env.valid target db)
    (keyed : (db.rows t).Pairwise fun r r' => same_key ((columns.filter Column.primary_key).map Column.name) r r' = false) :
    (db.begun fresh columns).exec env (.insert_select fresh (columns.map Column.name) t) =
      some ((db.begun fresh columns).with_rows fresh ((db.rows t).map ((db.begun fresh columns).copied env fresh (columns.map Column.name)))) := by
  have definition : (db.begun fresh columns).catalog.tables fresh = some (.table columns) := db.catalog.with_table_self
  have empty : (db.begun fresh columns).rows fresh = [] := db.with_rows_self fresh []
  have source : (db.begun fresh columns).rows t = db.rows t := db.with_rows_ne fresh [] rebuildable.other
  have names : (db.begun fresh columns).catalog.names t = db.catalog.names t := db.catalog.names_with_table_ne rebuildable.other
  refine exec_eq_some (k := (db.begun fresh columns).catalog)
    (d := (db.begun fresh columns).with_rows fresh ((db.rows t).map ((db.begun fresh columns).copied env fresh (columns.map Column.name)))) ?_ ?_
  · refine if_pos fun c named => ⟨begun_names db ▸ named,names ▸ ?_⟩
    obtain ⟨column,member,rfl⟩ := List.mem_map.mp named
    exact rebuildable.listed column member
  · have each := insert_each (db.begun fresh columns) (columns.map Column.name) (db.rows t) off rebuildable.quiet ?_ ?_
    · rw [Database.write,source,each,empty]
      rfl
    · intro r stored c defined
      have member : c ∈ columns := by
        rw [Catalog.columns,definition] at defined
        exact defined
      rw [agree_copied env _ fresh _ r c.name (List.mem_map_of_mem member)]
      obtain ⟨c',required,same,needs,checks⟩ := rebuildable.constraints c member
      have holds := (conforms t r stored c' required (same ▸ rebuildable.listed c member)).1
      rw [same] at holds
      exact ⟨fun strict => holds.1 (needs strict),fun check has => holds.2 check (checks check has)⟩
    · rw [empty,List.nil_append,List.pairwise_map]
      refine keyed.imp fun {r r'} distinct => ?_
      have key : (db.begun fresh columns).catalog.key fresh = (columns.filter Column.primary_key).map Column.name := by
        rw [Catalog.key,definition]
        exact List.append_nil _
      refine Bool.or_eq_false_iff.mpr ⟨?_,List.any_eq_false.mpr fun i _ => ?_⟩
      · rw [key,← distinct]
        refine same_key_congr (fun c named => ?_) fun c named => ?_
        · exact agree_copied env _ fresh _ r c (key_named named)
        · exact agree_copied env _ fresh _ r' c (key_named named)
      · rw [show (db.begun fresh columns).catalog.indexes i = db.catalog.indexes i from rfl]
        cases found : db.catalog.indexes i with
        | none => simp
        | some d => simp [rebuildable.unindexed i d found]

theorem run_replaced (off : env.foreign_keys = false) (other : t ≠ fresh) (present : (db.catalog.tables t).isSome)
    (definition : db.catalog.tables fresh = some (.table columns)) :
    db.run env [.drop_table false t,.rename_table fresh t] = some (db.replaced t fresh columns) := by
  let m : Database T C I G V := { db.cleared t with catalog := db.catalog.without t }
  have dropped : db.exec env (.drop_table false t) = some m := by
    refine exec_eq_some ?_ ?_
    · obtain ⟨old,found⟩ := Option.isSome_iff_exists.mp present
      simp only [Statement.shape,found]
    · rw [Database.write,if_neg]
      rw [off]
      simp
  have renamed : m.exec env (.rename_table fresh t) = some (db.replaced t fresh columns) := by
    refine exec_eq_some (d := ((m.cleared fresh).with_rows t (m.rows fresh)).with_postings t (m.postings fresh)) ?_ rfl
    have kept : m.catalog.tables fresh = some (.table columns) := (Function.update_of_ne other.symm _ _).trans definition
    have gone : m.catalog.tables t = none := Function.update_self ..
    simp only [Statement.shape,kept,gone]
    rfl
  rw [run_cons,dropped,Option.bind_some,run_cons,renamed]
  rfl

/-- The four statements of a rebuild. -/
theorem run_rebuild (off : env.foreign_keys = false) (rebuildable : Rebuildable target db.catalog t fresh columns)
    (conforms : Conforms env.valid target db)
    (keyed : (db.rows t).Pairwise fun r r' => same_key ((columns.filter Column.primary_key).map Column.name) r r' = false) :
    ∃ db', db.run env (rebuild t fresh columns) = some db' ∧ Rebuilt db t fresh columns db' := by
  have other := rebuildable.other
  let m := (db.begun fresh columns).with_rows fresh ((db.rows t).map ((db.begun fresh columns).copied env fresh (columns.map Column.name)))
  have there : (m.catalog.tables t).isSome := (congrArg Option.isSome (db.catalog.with_table_ne other)).trans rebuildable.present
  have replaced := run_replaced off other there (db.catalog.with_table_self)
  have table : (m.replaced t fresh columns).catalog.tables t = some ((TableDef.table columns : TableDef T C V).renamed fresh t) := Catalog.renamed_self ..
  have tables : ∀ u, u ≠ t → u ≠ fresh → (m.replaced t fresh columns).catalog.tables u = (db.catalog.tables u).map (TableDef.renamed fresh t) := by
    intro u away away'
    rw [replaced_tables_ne m away away']
    exact congrArg _ (db.catalog.with_table_ne away')
  have outside : ∀ {u}, u ∉ [t,fresh] → u ≠ t ∧ u ≠ fresh := fun away => by simpa using away
  refine ⟨m.replaced t fresh columns,?_,?_⟩
  · rw [rebuild,run_cons,exec_begun rebuildable.unused,Option.bind_some,run_cons,exec_copied off rebuildable conforms keyed,Option.bind_some]
    exact replaced
  · exact
      { present := by rw [table]; rfl
        names := by
          rw [Catalog.names,Catalog.columns,table]
          exact columns_renamed fresh t (.table columns)
        rows := by
          rw [replaced_rows m other,(db.begun fresh columns).with_rows_self,List.forall₂_map_right_iff,List.forall₂_same]
          exact fun r _ => agree_copied env _ fresh _ r
        left := replaced_left m other
        tables := by
          intro u away there
          rw [tables u (outside away).1 (outside away).2,Option.isSome_map]
          exact there
        names_other := by
          intro u away
          rw [Catalog.names,Catalog.columns,tables u (outside away).1 (outside away).2]
          cases found : db.catalog.tables u with
          | none => simp [Catalog.names,Catalog.columns,found]
          | some d => simpa [Catalog.names,Catalog.columns,found] using columns_renamed fresh t d
        rows_other := by
          intro u away
          obtain ⟨away,away'⟩ := outside away
          exact (replaced_rows_ne m away away').trans (((db.begun fresh columns).with_rows_ne fresh _ away').trans (db.with_rows_ne fresh [] away'))
        postings_other := by
          intro u away
          obtain ⟨away,away'⟩ := outside away
          exact (replaced_postings_ne m away away').trans ((db.with_rows fresh []).with_postings_ne fresh [] away') }

instance (k : Catalog T C I G V) : Decidable (Rebuildable target k t fresh columns) :=
  decidable_of_iff (t ≠ fresh ∧ (k.tables t).isSome ∧ k.tables fresh = none ∧ (∀ c ∈ columns, c.name ∈ k.names t) ∧
      (∀ c ∈ k.names t, c ∈ columns.map Column.name) ∧ (∀ i, ∀ d ∈ k.indexes i, d.table ≠ fresh) ∧ k.fired .insert fresh = [] ∧
      ∀ c ∈ columns, ∃ c' ∈ target.columns t, c'.name = c.name ∧ (c.not_null = true → c'.not_null = true) ∧ ∀ check ∈ c.check, check ∈ c'.check)
    ⟨fun ⟨a,b,c,d,e,f,g,h⟩ => ⟨a,b,c,d,e,f,g,h⟩,fun ⟨a,b,c,d,e,f,g,h⟩ => ⟨a,b,c,d,e,f,g,h⟩⟩

/-- A rebuild after other statements that left the rows of the table. -/
theorem run_then_rebuild {done : List (Statement T C I G V)} {subjects : List T} {d : Draft T C I G V} {m : Database T C I G V}
    (off : env.foreign_keys = false) (free : Free apart target) (ran : db.run env done = some m)
    (advances : Advances env.valid target apart grown subjects d db m)
    (rebuildable : ∀ k ∈ shapes env.foreign_keys done db.catalog, Rebuildable target k t fresh columns) (untouched : t ∉ subjects)
    (keyed : (db.rows t).Pairwise fun r r' => same_key ((columns.filter Column.primary_key).map Column.name) r r' = false) :
    ∃ m', db.run env (done ++ rebuild t fresh columns) = some m' ∧
      Advances env.valid target apart grown (subjects ++ [t,fresh]) (Draft.of m'.catalog) db m' := by
  rw [← advances.rows t untouched] at keyed
  have here := rebuildable m.catalog (shapes_of_run ran)
  obtain ⟨m',rebuilt_run,rebuilt⟩ := run_rebuild off here advances.conforms keyed
  refine ⟨m',?_,advances.trans (rebuilt.advances here free advances.conforms)⟩
  rw [run_append,ran]
  exact rebuilt_run

end rebuild
end MemoryEngine.Relational
