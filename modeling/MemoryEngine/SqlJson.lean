import MemoryEngine.Floats

/-! Values in SQL and what SQLite's JSON functions read out of a document. A missing
label and a JSON null both read as NULL, booleans and numbers as numbers, and arrays
and objects as their text. -/

namespace MemoryEngine

inductive SqlValue where
  | null
  | integer (i : Int)
  | real (x : SqlReal)
  | text (s : String)

namespace SqlValue

/-- The number that a value is compared as. -/
def number : SqlValue → Option F64
  | .integer i => some (F64.ofRat i)
  | .real x => some (.num x)
  | _ => none

/-- `=`, which is NULL on a NULL. Integers and reals compare as the numbers they are, and
    no text equals a number. -/
def eq : SqlValue → SqlValue → Option Bool
  | .null,_ => none
  | _,.null => none
  | .text s,.text t => some (decide (s = t))
  | a,b =>
    match a.number,b.number with
    | some x,some y => some (decide (x = y))
    | _,_ => some false

/-- A double in SQL; NaN is NULL. -/
def ofF64 : F64 → SqlValue
  | .nan => .null
  | .num x => .real x

end SqlValue

/-- `AND` and `OR` of conditions that may be NULL. -/
def sqlAnd : Option Bool → Option Bool → Option Bool
  | some false,_ => some false
  | _,some false => some false
  | some true,some true => some true
  | _,_ => none

def sqlOr : Option Bool → Option Bool → Option Bool
  | some true,_ => some true
  | _,some true => some true
  | some false,some false => some false
  | _,_ => none

theorem sqlAnd_eq_true {a b : Option Bool} : sqlAnd a b = some true ↔ a = some true ∧ b = some true := by
  cases a with
  | none => cases b with
    | none => simp [sqlAnd]
    | some b => cases b <;> simp [sqlAnd]
  | some a => cases a <;> cases b with
    | none => simp [sqlAnd]
    | some b => cases b <;> simp [sqlAnd]

theorem sqlOr_eq_true {a b : Option Bool} : sqlOr a b = some true ↔ a = some true ∨ b = some true := by
  cases a with
  | none => cases b with
    | none => simp [sqlOr]
    | some b => cases b <;> simp [sqlOr]
  | some a => cases a <;> cases b with
    | none => simp [sqlOr]
    | some b => cases b <;> simp [sqlOr]

namespace SqlJson

/-- The nesting from which on SQLite calls a document malformed. -/
def JSON_MAX_DEPTH : Nat := 1000

def I64_MIN : Int := -2 ^ 63
def I64_MAX : Int := 2 ^ 63 - 1

/-- The number fits into 64 bits with a sign. -/
def Fits (i : Int) : Prop := I64_MIN ≤ i ∧ i ≤ I64_MAX

instance (i : Int) : Decidable (Fits i) := inferInstanceAs (Decidable (_ ∧ _))

/-- The character that an escape in a label stands for. -/
def escapeChar (c : Char) : Char :=
  if c = 'n' then '\n' else if c = 't' then '\t' else if c = 'r' then '\r' else if c = 'b' then '\x08' else if c = 'f' then '\x0c' else c

/-- A quoted label up to its closing quote, and what follows it. -/
def readLabel : List Char → Option (List Char × List Char)
  | [] => none
  | c :: rest =>
    if c = '"' then some ([],rest) else
    if c = '\\' then
      match rest with
      | [] => none
      | d :: after => (readLabel after).map fun read => (escapeChar d :: read.1,read.2)
    else (readLabel rest).map fun read => (c :: read.1,read.2)

@[simp] theorem readLabel_quote (rest : List Char) : readLabel ('"' :: rest) = some ([],rest) := by
  rw [readLabel.eq_def]
  rfl

@[simp] theorem readLabel_escape (d : Char) (after : List Char) :
    readLabel ('\\' :: d :: after) = (readLabel after).map fun read => (escapeChar d :: read.1,read.2) := by
  rw [readLabel.eq_def]
  rfl

theorem readLabel_plain {c : Char} (rest : List Char) (quote : c ≠ '"') (slash : c ≠ '\\') :
    readLabel (c :: rest) = (readLabel rest).map fun read => (c :: read.1,read.2) := by
  rw [readLabel.eq_def]
  simp [quote,slash]

/-- The label of a path of one quoted step. -/
def topLabel (path : String) : Option String :=
  match path.toList with
  | '$' :: '.' :: '"' :: rest =>
    match readLabel rest with
    | some (label,[]) => some (String.ofList label)
    | _ => none
  | _ => none

/-- The value under a top-level label of an object. -/
def topLevel (label : String) (j : Json) : Option Json := j.fields.lookup label

/-- What a path of one quoted step leads to. -/
def lookup (path : String) (j : Json) : Except MemoryError (Option Json) :=
  if JSON_MAX_DEPTH < j.depth then .error (.Storage "malformed JSON") else
  match topLabel path with
  | some label => .ok (topLevel label j)
  | none => .error (.Storage s!"bad JSON path: {path}")

variable (to_string : Json → String)

/-- A JSON value in SQL. An integer that does not fit is read as a double. -/
def sqlValue : Json → SqlValue
  | .null => .null
  | .bool b => .integer (if b then 1 else 0)
  | .int i => if Fits i then .integer i else .ofF64 (F64.ofInt i)
  | .float x => .real x
  | .str s => .text s
  | j => .text (to_string j)

def json_extract (j : Json) (path : String) : Except MemoryError SqlValue :=
  (lookup path j).map fun
    | some v => sqlValue to_string v
    | none => .null

def typeName : Json → String
  | .null => "null"
  | .bool b => if b then "true" else "false"
  | .int _ => "integer"
  | .float _ => "real"
  | .str _ => "text"
  | .arr _ => "array"
  | .obj _ => "object"

def json_type (j : Json) (path : String) : Except MemoryError SqlValue :=
  (lookup path j).map fun
    | some v => .text (typeName v)
    | none => .null

/-- The number that a JSON value is compared as. -/
def number : Json → Option F64
  | .bool b => some (F64.ofRat (if b then 1 else 0))
  | .int i => some (if Fits i then F64.ofRat i else F64.ofInt i)
  | .float x => some (.num x)
  | _ => none

/-- Two different values that SQL takes for the same: numbers and booleans that read as one
    number, and an array or object against its own text. -/
inductive Collides : Json → Json → Prop where
  | number {v w : Json} {x : F64} (differ : v ≠ w) (left : number v = some x) (right : number w = some x) : Collides v w
  | arr (items : List Json) : Collides (.arr items) (.str (to_string (.arr items)))
  | obj (fields : List (String × Json)) : Collides (.obj fields) (.str (to_string (.obj fields)))

variable {to_string}

theorem typeName_eq_null {v : Json} : typeName v = "null" ↔ v = .null := by
  cases v with
  | bool b => cases b <;> simp [typeName]
  | _ => simp [typeName]

theorem ofF64_number (x : F64) (number : x ≠ .nan) : (SqlValue.ofF64 x).number = some x := by
  cases x with
  | nan => exact absurd rfl number
  | num x => rfl

theorem ofInt_ne_nan (i : Int) : F64.ofInt i ≠ .nan := mt F64.ofDatum_eq_nan.mp (Rounding.Format.round_ne_nan _ _)

theorem sqlValue_number (v : Json) : (sqlValue to_string v).number = number v := by
  cases v with
  | bool b => cases b <;> rfl
  | int i =>
    by_cases fits : Fits i
    · simp [sqlValue,number,fits,SqlValue.number]
    · simp only [sqlValue,number,if_neg fits]
      exact ofF64_number _ (ofInt_ne_nan i)
  | _ => rfl

/-- Equality with a number is equality of the numbers. -/
theorem eq_of_number {a b : SqlValue} {y : F64} (right : b.number = some y) : a.eq b = some true ↔ a.number = some y := by
  cases b with
  | null => cases right
  | text t => cases right
  | integer j =>
    obtain rfl := Option.some.inj right
    cases a <;> simp [SqlValue.eq,SqlValue.number]
  | real z =>
    obtain rfl := Option.some.inj right
    cases a <;> simp [SqlValue.eq,SqlValue.number]

theorem eq_text {a : SqlValue} {t : String} : a.eq (.text t) = some true ↔ a = .text t := by
  cases a <;> simp [SqlValue.eq,SqlValue.number]

/-- What SQL takes for a scalar is the scalar and what collides with it. -/
theorem eq_sqlValue {v w : Json} (present : w ≠ .null) (flat : (∀ items, w ≠ .arr items) ∧ ∀ fields, w ≠ .obj fields) :
    (sqlValue to_string v).eq (sqlValue to_string w) = some true ↔ v = w ∨ Collides to_string v w := by
  cases numbered : number w with
  | some y =>
    rw [eq_of_number ((sqlValue_number w).trans numbered),sqlValue_number]
    constructor
    · intro same
      by_cases equal : v = w
      · exact .inl equal
      · exact .inr (.number equal same numbered)
    · rintro (rfl | collides)
      · exact numbered
      · cases collides with
        | number _ left right =>
          rw [left]
          exact right.symm.trans numbered
        | arr => cases numbered
        | obj => cases numbered
  | none =>
    cases w with
    | null => exact absurd rfl present
    | bool b => cases numbered
    | int i => cases numbered
    | float x => cases numbered
    | arr items => exact absurd rfl (flat.1 items)
    | obj fields => exact absurd rfl (flat.2 fields)
    | str t =>
      show (sqlValue to_string v).eq (.text t) = some true ↔ _
      rw [eq_text]
      constructor
      · intro same
        cases v with
        | null => cases same
        | bool b => cases same
        | float x => cases same
        | int i =>
          have numeral : (sqlValue to_string (.int i)).number = number (.int i) := sqlValue_number _
          rw [same] at numeral
          cases numeral
        | str s =>
          obtain rfl : s = t := SqlValue.text.inj same
          exact .inl rfl
        | arr items =>
          obtain rfl : to_string (.arr items) = t := SqlValue.text.inj same
          exact .inr (.arr items)
        | obj fields =>
          obtain rfl : to_string (.obj fields) = t := SqlValue.text.inj same
          exact .inr (.obj fields)
      · rintro (rfl | collides)
        · rfl
        · cases collides with
          | number _ _ right => cases right
          | arr => rfl
          | obj => rfl

/-- Values that collide are different. -/
theorem Collides.ne {v w : Json} (collides : Collides to_string v w) : v ≠ w := by
  cases collides with
  | number differ _ _ => exact differ
  | arr items => exact fun same => by cases same
  | obj fields => exact fun same => by cases same

end SqlJson
end MemoryEngine
