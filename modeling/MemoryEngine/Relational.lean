import Mathlib.Data.FinEnum
import Mathlib.Data.List.Forall2
import Mathlib.Logic.Function.Basic

/-! Tables with their columns, indexes and triggers, and the statements that define them and
write their rows. What a statement does to the catalog depends on the catalog alone; over the
rows it can only fail. Names are of any type, and a row gives a value to every column. -/

namespace MemoryEngine.Relational

/-- Values with a NULL. -/
class Nullable (V : Type) where
  null : V

export Nullable (null)

inductive ColumnType where
  | INTEGER
  | REAL
  | TEXT
  | BLOB
deriving DecidableEq

inductive OnDelete where
  | no_action
  | cascade
  | set_null
deriving DecidableEq

structure Reference (T C : Type) where
  table : T
  column : C
  on_delete : OnDelete := .no_action
deriving DecidableEq

inductive Initial (V : Type) where
  | literal (v : V)
  | now
deriving DecidableEq

/-- A constraint on one value: it is listed, or the validity test of the host holds of it. -/
inductive Check (V : Type) where
  | one_of (values : List V)
  | valid
deriving DecidableEq

structure Column (T C V : Type) where
  name : C
  type : ColumnType
  primary_key : Bool := false
  autoincrement : Bool := false
  not_null : Bool := false
  initial : Option (Initial V) := none
  check : Option (Check V) := none
  references : Option (Reference T C) := none
deriving DecidableEq

/-- A table of rows, or an index of one text column of another table. -/
inductive TableDef (T C V : Type) where
  | table (columns : List (Column T C V)) (primary_key : List C := []) (without_rowid : Bool := false)
  | fts5 (content : C) (content_table : T) (content_rowid : C) (tokenize : String)
deriving DecidableEq

inductive Direction where
  | asc
  | desc
deriving DecidableEq

/-- The condition of a partial index. -/
inductive Condition (C V : Type) where
  | equals (c : C) (v : V)
  | is_null (c : C)
  | is_not_null (c : C)
  | and (left right : Condition C V)
deriving DecidableEq

structure IndexDef (T C V : Type) where
  table : T
  columns : List (C × Direction)
  unique : Bool := false
  condition : Option (Condition C V) := none
deriving DecidableEq

inductive RowEvent where
  | insert
  | update
  | delete
deriving DecidableEq

/-- What a trigger does to a text index: it enters the new row or takes the old one out. -/
inductive Posting (T C : Type) where
  | enter (index : T) (rowid content : C)
  | remove (index : T) (rowid content : C)
deriving DecidableEq

structure TriggerDef (T C : Type) where
  table : T
  event : RowEvent
  body : List (Posting T C)
deriving DecidableEq

/-- The objects under their names. -/
@[ext]
structure Catalog (T C I G V : Type) where
  tables : T → Option (TableDef T C V)
  indexes : I → Option (IndexDef T C V)
  triggers : G → Option (TriggerDef T C)

/-- The objects with the rows of each table and the entries of each text index. -/
structure Database (T C I G V : Type) where
  catalog : Catalog T C I G V
  rows : T → List (C → V)
  postings : T → List (V × V)

/-- What statements read besides the database. -/
structure Env (V : Type) where
  now : V
  valid : V → Bool
  /-- Whether foreign keys are enforced. -/
  foreign_keys : Bool

inductive Statement (T C I G V : Type) where
  | create_table (if_not_exists : Bool) (t : T) (definition : TableDef T C V)
  | create_index (if_not_exists : Bool) (i : I) (definition : IndexDef T C V)
  | create_trigger (if_not_exists : Bool) (g : G) (definition : TriggerDef T C)
  | drop_table (if_exists : Bool) (t : T)
  | drop_index (if_exists : Bool) (i : I)
  | drop_trigger (if_exists : Bool) (g : G)
  | add_column (t : T) (column : Column T C V)
  | rename_table (t fresh : T)
  | insert (or_ignore : Bool) (t : T) (values : List (C × V))
  | upsert (t : T) (key column : C) (k v : V)
  | insert_select (t : T) (columns : List C) (source : T)
  | index_select (index : T) (rowid content : C) (source : T)
  | update_column (t : T) (column source : C)
  | delete_where (t : T) (column : C) (v : V)

section names
variable {T C I G V : Type}

namespace TableDef

def columns : TableDef T C V → List (Column T C V)
  | .table columns _ _ => columns
  | .fts5 _ _ _ _ => []

/-- The columns of the primary key. -/
def key : TableDef T C V → List C
  | .table columns primary_key _ => (columns.filter Column.primary_key).map Column.name ++ primary_key
  | .fts5 _ _ _ _ => []

def is_table : TableDef T C V → Bool
  | .table _ _ _ => true
  | .fts5 _ _ _ _ => false

end TableDef

namespace Catalog

/-- No object. -/
def empty : Catalog T C I G V := ⟨fun _ => none,fun _ => none,fun _ => none⟩

def columns (k : Catalog T C I G V) (t : T) : List (Column T C V) := (k.tables t).elim [] TableDef.columns

def names (k : Catalog T C I G V) (t : T) : List C := (k.columns t).map Column.name

def key (k : Catalog T C I G V) (t : T) : List C := (k.tables t).elim [] TableDef.key

end Catalog

/-- The rows agree on some columns. -/
def Agree (columns : List C) (r r' : C → V) : Prop := ∀ c ∈ columns, r' c = r c

end names

section updates
variable {T C I G V : Type} [DecidableEq T]

/-- Define a table, or take it away. -/
def Catalog.with_table (k : Catalog T C I G V) (t : T) (definition : Option (TableDef T C V)) : Catalog T C I G V :=
  { k with tables := Function.update k.tables t definition }

namespace Catalog
variable (k : Catalog T C I G V) {t u : T} {definition : Option (TableDef T C V)}

@[simp] theorem with_table_self : (k.with_table t definition).tables t = definition := Function.update_self ..

@[simp] theorem with_table_ne (other : u ≠ t) : (k.with_table t definition).tables u = k.tables u := Function.update_of_ne other ..

@[simp] theorem columns_with_table_self : (k.with_table t definition).columns t = definition.elim [] TableDef.columns := by
  rw [columns,with_table_self]

@[simp] theorem columns_with_table_ne (other : u ≠ t) : (k.with_table t definition).columns u = k.columns u := by
  rw [columns,with_table_ne k other]
  rfl

@[simp] theorem names_with_table_ne (other : u ≠ t) : (k.with_table t definition).names u = k.names u := by
  rw [names,columns_with_table_ne k other]
  rfl

end Catalog

/-- A reference follows a table that is renamed. -/
def Reference.renamed (t fresh : T) (r : Reference T C) : Reference T C := if r.table = t then { r with table := fresh } else r

def TableDef.renamed (t fresh : T) : TableDef T C V → TableDef T C V
  | .table columns primary_key without_rowid =>
    .table (columns.map fun c => { c with references := c.references.map (Reference.renamed t fresh) }) primary_key without_rowid
  | .fts5 content content_table content_rowid tokenize => .fts5 content content_table content_rowid tokenize

namespace Catalog
variable (k : Catalog T C I G V) (t fresh : T) (definition : TableDef T C V)

/-- A table goes with its indexes and triggers. -/
def without : Catalog T C I G V where
  tables := Function.update k.tables t none
  indexes i := (k.indexes i).filter fun d => d.table ≠ t
  triggers g := (k.triggers g).filter fun d => d.table ≠ t

/-- A table gets a new name, in its indexes and triggers and in the references to it. -/
def renamed : Catalog T C I G V where
  tables u := (Function.update (Function.update k.tables t none) fresh (some definition) u).map (TableDef.renamed t fresh)
  indexes i := (k.indexes i).map fun d => if d.table = t then { d with table := fresh } else d
  triggers g := (k.triggers g).map fun d => if d.table = t then { d with table := fresh } else d

@[simp] theorem without_self : (k.without t).tables t = none := Function.update_self ..

@[simp] theorem without_ne {u : T} (other : u ≠ t) : (k.without t).tables u = k.tables u := Function.update_of_ne other ..

@[simp] theorem renamed_self : (k.renamed t fresh definition).tables fresh = some (definition.renamed t fresh) := by
  simp [renamed]

@[simp] theorem renamed_ne {u : T} (other : u ≠ t) (other' : u ≠ fresh) :
    (k.renamed t fresh definition).tables u = (k.tables u).map (TableDef.renamed t fresh) := by
  simp [renamed,Function.update_of_ne other',Function.update_of_ne other]

end Catalog

namespace Database
variable (db : Database T C I G V) (t : T) (rows : List (C → V)) (entries : List (V × V))

def with_rows : Database T C I G V := { db with rows := Function.update db.rows t rows }

def with_postings : Database T C I G V := { db with postings := Function.update db.postings t entries }

@[simp] theorem with_rows_catalog : (db.with_rows t rows).catalog = db.catalog := rfl

@[simp] theorem with_rows_postings : (db.with_rows t rows).postings = db.postings := rfl

@[simp] theorem with_rows_self : (db.with_rows t rows).rows t = rows := Function.update_self ..

@[simp] theorem with_rows_ne {u : T} (other : u ≠ t) : (db.with_rows t rows).rows u = db.rows u := Function.update_of_ne other ..

@[simp] theorem with_postings_catalog : (db.with_postings t entries).catalog = db.catalog := rfl

@[simp] theorem with_postings_rows : (db.with_postings t entries).rows = db.rows := rfl

@[simp] theorem with_postings_self : (db.with_postings t entries).postings t = entries := Function.update_self ..

@[simp] theorem with_postings_ne {u : T} (other : u ≠ t) : (db.with_postings t entries).postings u = db.postings u := Function.update_of_ne other ..

/-- The table without its rows and entries. -/
def cleared : Database T C I G V := (db.with_rows t []).with_postings t []

end Database
end updates

section shape
variable {T C I G V : Type} [DecidableEq T] [DecidableEq C] [DecidableEq I] [DecidableEq G] [DecidableEq V] [Nullable V]

/-- A column that existing rows can take: its initial value is a constant, not NULL where the
    column is not, and NULL where it refers to rows. -/
def Column.addable (c : Column T C V) (foreign_keys : Bool) : Bool :=
  !c.primary_key &&
  match c.initial with
  | none => !c.not_null
  | some .now => false
  | some (.literal v) => (!c.not_null || v ≠ null) && (c.references.isNone || !foreign_keys || v = null)

/-- The catalog after a statement, if it may run. -/
def Statement.shape (s : Statement T C I G V) (foreign_keys : Bool) (k : Catalog T C I G V) : Option (Catalog T C I G V) :=
  match s with
  | .create_table if_not_exists t definition =>
    match k.tables t with
    | some _ => if if_not_exists then some k else none
    | none => some (k.with_table t (some definition))
  | .create_index if_not_exists i definition =>
    match k.indexes i with
    | some _ => if if_not_exists then some k else none
    | none =>
      if ∀ c ∈ definition.columns, c.1 ∈ k.names definition.table then
        some { k with indexes := Function.update k.indexes i (some definition) }
      else none
  | .create_trigger if_not_exists g definition =>
    match k.triggers g with
    | some _ => if if_not_exists then some k else none
    | none =>
      if (k.tables definition.table).isSome then some { k with triggers := Function.update k.triggers g (some definition) } else none
  | .drop_table if_exists t =>
    match k.tables t with
    | none => if if_exists then some k else none
    | some _ => some (k.without t)
  | .drop_index if_exists i =>
    if (k.indexes i).isSome ∨ if_exists then some { k with indexes := Function.update k.indexes i none } else none
  | .drop_trigger if_exists g =>
    if (k.triggers g).isSome ∨ if_exists then some { k with triggers := Function.update k.triggers g none } else none
  | .add_column t column =>
    match k.tables t with
    | some (.table columns primary_key without_rowid) =>
      if column.name ∉ columns.map Column.name ∧ column.addable foreign_keys then
        some (k.with_table t (some (.table (columns ++ [column]) primary_key without_rowid)))
      else none
    | _ => none
  | .rename_table t fresh =>
    match k.tables t,k.tables fresh with
    | some definition,none => some (k.renamed t fresh definition)
    | _,_ => none
  | .insert _ t values => if ∀ c ∈ values, c.1 ∈ k.names t then some k else none
  | .upsert t key column _ _ => if key ∈ k.names t ∧ column ∈ k.names t then some k else none
  | .insert_select t columns source => if ∀ c ∈ columns, c ∈ k.names t ∧ c ∈ k.names source then some k else none
  | .index_select index rowid content source =>
    if (k.tables index).any (fun d => !d.is_table) ∧ rowid ∈ k.names source ∧ content ∈ k.names source then some k else none
  | .update_column t column source => if column ∈ k.names t ∧ source ∈ k.names t then some k else none
  | .delete_where t column _ => if column ∈ k.names t then some k else none

def shapes (foreign_keys : Bool) (statements : List (Statement T C I G V)) (k : Catalog T C I G V) : Option (Catalog T C I G V) :=
  statements.foldlM (fun k s => s.shape foreign_keys k) k

/-- Copy the rows of a table into a new one, which takes its name. -/
def rebuild (t fresh : T) (columns : List (Column T C V)) : List (Statement T C I G V) :=
  [.create_table false fresh (.table columns),.insert_select fresh (columns.map Column.name) t,.drop_table false t,.rename_table fresh t]

end shape

section rows
variable {T C I G V : Type} [FinEnum T] [DecidableEq C] [FinEnum I] [FinEnum G] [DecidableEq V] [Nullable V] (env : Env V) (valid : V → Bool)

def Check.Holds (c : Check V) (v : V) : Prop :=
  match c with
  | .one_of values => v ∈ values
  | .valid => valid v = true

instance (c : Check V) (v : V) : Decidable (c.Holds valid v) := by
  cases c <;> unfold Check.Holds <;> infer_instance

namespace Column

/-- The value that the column has in a row that says nothing of it. -/
def value (c : Column T C V) : V :=
  match c.initial with
  | none => null
  | some (.literal v) => v
  | some .now => env.now

/-- The constraints on a value alone. A check on NULL passes. -/
def Admits (c : Column T C V) (v : V) : Prop :=
  (c.not_null = true → v ≠ null) ∧ ∀ check ∈ c.check, v = null ∨ check.Holds valid v

instance (c : Column T C V) (v : V) : Decidable (c.Admits valid v) := by
  unfold Admits
  infer_instance

/-- The value is NULL, or a row of the table that the column refers to has it. -/
def Refers (c : Column T C V) (rows : T → List (C → V)) (v : V) : Prop :=
  ∀ ref ∈ c.references, v = null ∨ ∃ r ∈ rows ref.table, r ref.column = v

instance (c : Column T C V) (rows : T → List (C → V)) (v : V) : Decidable (c.Refers rows v) := by
  unfold Refers
  infer_instance

end Column

namespace Condition

/-- Whether a partial index covers a row. -/
def covers (r : C → V) : Condition C V → Bool
  | equals c v => r c = v
  | is_null c => r c = null
  | is_not_null c => r c ≠ null
  | and left right => left.covers r && right.covers r

end Condition

/-- The rows have one key, with no NULL in it. -/
def same_key (columns : List C) (r r' : C → V) : Bool := columns ≠ [] && columns.all fun c => r c = r' c && r c ≠ null

def IndexDef.clash (d : IndexDef T C V) (r r' : C → V) : Bool :=
  d.condition.elim true (fun c => c.covers r && c.covers r') && same_key (d.columns.map Prod.fst) r r'

namespace Catalog
variable (k : Catalog T C I G V)

/-- The rows cannot both be in the table. -/
def clash (t : T) (r r' : C → V) : Bool :=
  same_key (k.key t) r r' ||
  (FinEnum.toList I).any fun i => (k.indexes i).elim false fun d => d.table = t && d.unique && d.clash r r'

/-- The row that says nothing of any column. -/
def blank (t : T) : C → V := fun c => ((k.columns t).find? fun column => column.name = c).elim null (Column.value env)

/-- The triggers of an event on a table. -/
def fired (event : RowEvent) (t : T) : List (Posting T C) :=
  ((FinEnum.toList G).filterMap k.triggers).flatMap fun d => if d.event = event ∧ d.table = t then d.body else []

/-- The columns that refer to rows of the table. -/
def referring (t : T) : List (T × C × C) :=
  (FinEnum.toList T).flatMap fun u => (k.columns u).filterMap fun c =>
    c.references.bind fun ref => if ref.table = t then some (u,c.name,ref.column) else none

end Catalog

namespace Database
variable (db : Database T C I G V)

/-- Take an entry in or out; an entry to take out that is not there is a malformed index. -/
def post (old new : C → V) (d : Database T C I G V) : Posting T C → Option (Database T C I G V)
  | .enter index rowid content => some (d.with_postings index (d.postings index ++ [(new rowid,new content)]))
  | .remove index rowid content =>
    if (old rowid,old content) ∈ d.postings index then
      some (d.with_postings index ((d.postings index).erase (old rowid,old content)))
    else none

/-- Run the triggers of an event on one row. -/
def fire (event : RowEvent) (t : T) (old new : C → V) : Option (Database T C I G V) :=
  (db.catalog.fired event t).foldlM (post old new) db

/-- A row of another table refers to the row. -/
def referenced (t : T) (r : C → V) : Bool :=
  (db.catalog.referring t).any fun (u,column,target) => u ≠ t && (db.rows u).any fun r' => r' column = r target && r' column ≠ null

/-- Insert one row. `OR IGNORE` leaves out a row that the constraints refuse, but for a
    foreign key. -/
def insert_row (or_ignore : Bool) (t : T) (r : C → V) : Option (Database T C I G V) :=
  if (∀ c ∈ db.catalog.columns t, c.Admits env.valid (r c.name)) ∧ ∀ r' ∈ db.rows t, db.catalog.clash t r' r = false then
    let db' := db.with_rows t (db.rows t ++ [r])
    if env.foreign_keys = true → ∀ c ∈ db.catalog.columns t, c.Refers db'.rows (r c.name) then db'.fire .insert t r r else none
  else if or_ignore then some db else none

/-- The values that some columns are given and the initial values of the others. -/
def filled (t : T) (values : List (C × V)) : C → V := fun c => (values.lookup c).getD (db.catalog.blank env t c)

/-- Every reference of every row holds. -/
def ForeignKeys : Prop := ∀ t, ∀ r ∈ db.rows t, ∀ c ∈ db.catalog.columns t, c.Refers db.rows (r c.name)

instance : Decidable db.ForeignKeys := by
  unfold ForeignKeys
  infer_instance

/-- Give a column of some rows another value. -/
def update_rows (t : T) (chosen : (C → V) → Bool) (column : C) (value : (C → V) → V) : Option (Database T C I G V) :=
  let updated := (db.rows t).filter chosen
  if ∀ r ∈ updated, ∀ c ∈ db.catalog.columns t, c.name = column →
      c.Admits env.valid (value r) ∧ (env.foreign_keys = true → c.Refers db.rows (value r)) then
    updated.foldlM (fun d r => d.fire .update t r (Function.update r column (value r)))
      (db.with_rows t ((db.rows t).map fun r => if chosen r then Function.update r column (value r) else r))
  else none

/-- The rows after a statement. -/
def write (s : Statement T C I G V) : Option (Database T C I G V) :=
  match s with
  | .create_table _ t _ => some (if (db.catalog.tables t).isSome then db else db.cleared t)
  | .create_index _ i d =>
    if (db.catalog.indexes i).isSome ∨ d.unique = false ∨ (db.rows d.table).Pairwise (fun r r' => d.clash r r' = false) then some db else none
  | .create_trigger _ _ _ => some db
  | .drop_table _ t =>
    if env.foreign_keys ∧ (db.rows t).any (db.referenced t) then none else some (db.cleared t)
  | .drop_index _ _ => some db
  | .drop_trigger _ _ => some db
  | .add_column t column => some (db.with_rows t ((db.rows t).map fun r => Function.update r column.name (column.value env)))
  | .rename_table t fresh => some (((db.cleared t).with_rows fresh (db.rows t)).with_postings fresh (db.postings t))
  | .insert or_ignore t values => db.insert_row env or_ignore t (db.filled env t values)
  | .upsert t key column k v =>
    if (db.rows t).any (fun r => r key = k) then db.update_rows env t (fun r => r key = k) column fun _ => v
    else db.insert_row env false t (db.filled env t [(key,k),(column,v)])
  | .insert_select t columns source =>
    (db.rows source).foldlM (fun d r => d.insert_row env false t (d.filled env t (columns.map fun c => (c,r c)))) db
  | .index_select index rowid content source =>
    some (db.with_postings index (db.postings index ++ (db.rows source).map fun r => (r rowid,r content)))
  | .update_column t column source => db.update_rows env t (fun _ => true) column fun r => r source
  | .delete_where t column v =>
    let gone := (db.rows t).filter fun r => r column = v
    if env.foreign_keys ∧ gone.any (db.referenced t) then none else
      gone.foldlM (fun d r => d.fire .delete t r r)
        (db.with_rows t ((db.rows t).filter fun r => r column ≠ v))

/-- Run a statement; a failed one leaves nothing. -/
def exec (s : Statement T C I G V) : Option (Database T C I G V) := do
  let catalog ← s.shape env.foreign_keys db.catalog
  let written ← db.write env s
  return { written with catalog }

/-- Run statements up to the first that fails. -/
def run (statements : List (Statement T C I G V)) : Option (Database T C I G V) := statements.foldlM (fun d s => d.exec env s) db

end Database

theorem run_nil {db : Database T C I G V} : db.run env [] = some db := rfl

theorem run_cons {db : Database T C I G V} {s : Statement T C I G V} {rest : List (Statement T C I G V)} :
    db.run env (s :: rest) = (db.exec env s).bind fun d => d.run env rest := rfl

theorem run_append {db : Database T C I G V} {first rest : List (Statement T C I G V)} :
    db.run env (first ++ rest) = (db.run env first).bind fun d => d.run env rest := List.foldlM_append ..

theorem shapes_append {foreign_keys : Bool} {first rest : List (Statement T C I G V)} {k : Catalog T C I G V} :
    shapes foreign_keys (first ++ rest) k = (shapes foreign_keys first k).bind (shapes foreign_keys rest) := List.foldlM_append ..

/-- The catalog changes by the text of a statement. -/
theorem shape_of_exec {env : Env V} {db db' : Database T C I G V} {s : Statement T C I G V} (ran : db.exec env s = some db') :
    s.shape env.foreign_keys db.catalog = some db'.catalog := by
  obtain ⟨k,shape,rest⟩ := Option.bind_eq_some_iff.mp ran
  obtain ⟨d,_,same⟩ := Option.bind_eq_some_iff.mp rest
  cases same
  exact shape

theorem shapes_of_run {env : Env V} {db db' : Database T C I G V} {statements : List (Statement T C I G V)} (ran : db.run env statements = some db') :
    shapes env.foreign_keys statements db.catalog = some db'.catalog := by
  induction statements generalizing db with
  | nil =>
    cases ran
    rfl
  | cons s rest ih =>
    obtain ⟨m,first,later⟩ := Option.bind_eq_some_iff.mp ran
    exact Option.bind_eq_some_iff.mpr ⟨m.catalog,shape_of_exec first,ih later⟩

end rows

section triggers
variable {T C I G V : Type} [FinEnum T] [FinEnum G] [DecidableEq V]

/-- Triggers that are not there do nothing. -/
theorem fire_quiet {d : Database T C I G V} {event : RowEvent} {t : T} (quiet : d.catalog.fired event t = []) (old new : C → V) :
    d.fire event t old new = some d := by
  rw [Database.fire,quiet]
  rfl

theorem foldlM_fire_quiet (d : Database T C I G V) {event : RowEvent} {t : T} (quiet : d.catalog.fired event t = []) (new : (C → V) → C → V)
    (rows : List (C → V)) : rows.foldlM (fun d r => d.fire event t r (new r)) d = some d := by
  induction rows with
  | nil => rfl
  | cons r rest ih =>
    rw [List.foldlM_cons,fire_quiet quiet]
    exact ih

end triggers
end MemoryEngine.Relational
