import MemoryEngine.SqlJson
import MemoryEngine.QueryFilters
import MemoryEngine.TimeText

/-! The filter of the search index and the SQL it becomes. Every clause reads its columns
as the filter means them, but for two: instants are compared by their texts, and a
metadata value is compared after SQL has read it, so that different values of JSON
can be taken for the same. -/

namespace MemoryEngine
open Time

namespace SearchIndex
open SqlJson

inductive TemporalFilter where
  | Active
  | AsOf (t : DateTime)
  | ValidDue (t : DateTime)
  | IncludeExpired

inductive MetadataPredicate where
  | KeyAbsent (key : String)
  | KeyPresent (key : String)
  | KeyEquals (key : String) (value : Json)

structure FactFilter where
  fact_type : Option FactType := none
  scope_ids : Option (List Int) := none
  ids : Option (List Int) := none
  temporal : TemporalFilter := .Active
  pinned : Option Bool := none
  metadata : List MetadataPredicate := []

/-- One conjunct of the clause, with the values bound to it. -/
inductive Conjunct where
  | active
  | as_of (t : DateTime)
  | valid_due (t : DateTime)
  | fact_type (ft : FactType)
  | scope_ids (ids : List Int)
  | ids (ids : List Int)
  | pinned (b : Bool)
  | key_absent (path : String)
  | key_present (path : String)
  | key_null (path : String)
  | key_equals (path : String) (value : SqlValue)

structure FilterSql where
  preds : List Conjunct
  where_clause : String
  params : List SqlValue

def fact_type_to_str : FactType → String
  | .Episodic => "episodic"
  | .Semantic => "semantic"
  | .Procedural => "procedural"

def serialize_ids (ids : List Int) : String := "[" ++ ",".intercalate (ids.map toString) ++ "]"

namespace Conjunct

/-- The text of a conjunct, its columns qualified. -/
def text (pre : String) : Conjunct → String
  | .active => s!"{pre}t_expired IS NULL"
  | .as_of _ => s!"{pre}t_expired IS NULL AND ({pre}t_valid IS NULL OR {pre}t_valid <= ?) AND ({pre}t_invalid IS NULL OR {pre}t_invalid > ?)"
  | .valid_due _ => s!"{pre}t_expired IS NULL AND {pre}t_valid IS NOT NULL AND {pre}t_valid <= ? AND ({pre}t_invalid IS NULL OR {pre}t_invalid > ?)"
  | .fact_type _ => s!"{pre}fact_type = ?"
  | .scope_ids _ => s!"{pre}scope_id IN (SELECT value FROM json_each(?))"
  | .ids _ => s!"{pre}id IN (SELECT value FROM json_each(?))"
  | .pinned _ => s!"{pre}is_pinned = ?"
  | .key_absent _ => s!"json_type({pre}metadata, ?) IS NULL"
  | .key_present _ => s!"json_extract({pre}metadata, ?) IS NOT NULL"
  | .key_null _ => s!"json_type({pre}metadata, ?) = 'null'"
  | .key_equals _ _ => s!"json_extract({pre}metadata, ?) = ?"

def params : Conjunct → List SqlValue
  | .active => []
  | .as_of t => [.text t.to_rfc3339,.text t.to_rfc3339]
  | .valid_due t => [.text t.to_rfc3339,.text t.to_rfc3339]
  | .fact_type ft => [.text (fact_type_to_str ft)]
  | .scope_ids given => [.text (serialize_ids given)]
  | .ids given => [.text (serialize_ids given)]
  | .pinned b => [.integer (if b then 1 else 0)]
  | .key_absent path => [.text path]
  | .key_present path => [.text path]
  | .key_null path => [.text path]
  | .key_equals path value => [.text path,value]

/-- `column <= ?` and `column > ?` on the texts of instants. -/
def notAfter (column : Option DateTime) (t : DateTime) : Option Bool := column.map fun x => !t.textLt x
def isAfter (column : Option DateTime) (t : DateTime) : Option Bool := column.map fun x => t.textLt x

def is_null : SqlValue → Bool
  | .null => true
  | _ => false

/-- What a conjunct is of a row. -/
def value (to_string : Json → String) (f : Fact) : Conjunct → Except MemoryError (Option Bool)
  | .active => .ok (some f.t_expired.isNone)
  | .as_of t => .ok (sqlAnd (sqlAnd (some f.t_expired.isNone) (sqlOr (some f.t_valid.isNone) (notAfter f.t_valid t)))
      (sqlOr (some f.t_invalid.isNone) (isAfter f.t_invalid t)))
  | .valid_due t => .ok (sqlAnd (sqlAnd (sqlAnd (some f.t_expired.isNone) (some f.t_valid.isSome)) (notAfter f.t_valid t))
      (sqlOr (some f.t_invalid.isNone) (isAfter f.t_invalid t)))
  | .fact_type ft => .ok (some (decide (fact_type_to_str f.fact_type = fact_type_to_str ft)))
  | .scope_ids given => .ok (some (decide (f.scope_id ∈ given)))
  | .ids given => .ok (some (decide (f.id ∈ given)))
  | .pinned b => .ok (SqlValue.eq (.integer (if f.is_pinned then 1 else 0)) (.integer (if b then 1 else 0)))
  | .key_absent path => (json_type f.metadata path).map fun v => some (is_null v)
  | .key_present path => (json_extract to_string f.metadata path).map fun v => some (!is_null v)
  | .key_null path => (json_type f.metadata path).map fun v => v.eq (.text "null")
  | .key_equals path bound => (json_extract to_string f.metadata path).map fun v => v.eq bound

end Conjunct

/-- The row passes the clause. A conjunct that is NULL or fails lets no row pass. -/
def FilterSql.Passes (to_string : Json → String) (sql : FilterSql) (f : Fact) : Prop :=
  ∀ conjunct ∈ sql.preds, conjunct.value to_string f = .ok (some true)

def push_temporal : TemporalFilter → List Conjunct
  | .Active => [.active]
  | .AsOf t => [.as_of t]
  | .ValidDue t => [.valid_due t]
  | .IncludeExpired => []

/-- `str::replace` of one character. -/
def replaceChar (c : Char) (replacement : List Char) (l : List Char) : List Char := l.flatMap fun d => if d = c then replacement else [d]

def json_path (key : String) : String :=
  String.ofList ('$' :: '.' :: '"' :: (replaceChar '"' ['\\','"'] (replaceChar '\\' ['\\','\\'] key.toList) ++ ['"']))

def value_to_sql : Json → Except MemoryError SqlValue
  | .str s => .ok (.text s)
  | .bool b => .ok (.integer (if b then 1 else 0))
  | .int i => .ok (if Fits i then .integer i else .ofF64 (F64.ofInt i))
  | .float x => .ok (.real x)
  | .null => .error (.Internal ("metadata KeyEquals does not support a null value (`= NULL` never matches in SQL); " ++
      "use KeyAbsent or KeyPresent to test for null/absence"))
  | _ => .error (.Internal "metadata KeyEquals supports scalar JSON values only (string/number/bool); got a composite value")

def push_metadata : MetadataPredicate → Except MemoryError Conjunct
  | .KeyAbsent key => .ok (.key_absent (json_path key))
  | .KeyPresent key => .ok (.key_present (json_path key))
  | .KeyEquals key .null => .ok (.key_null (json_path key))
  | .KeyEquals key v => (value_to_sql v).map (.key_equals (json_path key))

def build_filter_sql (filter : FactFilter) (pre : String) : Except MemoryError FilterSql := do
  let metadata ← filter.metadata.mapM push_metadata
  let preds := push_temporal filter.temporal ++ (filter.fact_type.map Conjunct.fact_type).toList ++
    (filter.scope_ids.map Conjunct.scope_ids).toList ++ (filter.ids.map Conjunct.ids).toList ++ (filter.pinned.map Conjunct.pinned).toList ++ metadata
  return ⟨preds,if preds.isEmpty then "1" else " AND ".intercalate (preds.map (Conjunct.text pre)),preds.flatMap Conjunct.params⟩

/-! The filter as it is meant. -/

/-- A present null counts as absent for presence but not for absence. -/
def MetadataPredicate.Holds (metadata : Json) : MetadataPredicate → Prop
  | .KeyAbsent key => topLevel key metadata = none
  | .KeyPresent key => ∃ v, topLevel key metadata = some v ∧ v ≠ .null
  | .KeyEquals key v => topLevel key metadata = some v

/-- The single conditions a filter is made of. -/
inductive Part where
  | unexpired
  | dated
  | begun (t : DateTime)
  | ongoing (t : DateTime)
  | fact_type (ft : FactType)
  | scope_ids (ids : List Int)
  | ids (ids : List Int)
  | pinned (b : Bool)
  | metadata (predicate : MetadataPredicate)

def Part.Holds (f : Fact) : Part → Prop
  | .unexpired => f.t_expired = none
  | .dated => f.t_valid ≠ none
  | .begun t => ∀ x ∈ f.t_valid, x ≤ t
  | .ongoing t => ∀ x ∈ f.t_invalid, t < x
  | .fact_type ft => f.fact_type = ft
  | .scope_ids given => f.scope_id ∈ given
  | .ids given => f.id ∈ given
  | .pinned b => f.is_pinned = b
  | .metadata predicate => predicate.Holds f.metadata

def TemporalFilter.parts : TemporalFilter → List Part
  | .Active => [.unexpired]
  | .AsOf t => [.unexpired,.begun t,.ongoing t]
  | .ValidDue t => [.unexpired,.dated,.begun t,.ongoing t]
  | .IncludeExpired => []

def FactFilter.parts (filter : FactFilter) : List Part :=
  filter.temporal.parts ++ (filter.fact_type.map Part.fact_type).toList ++ (filter.scope_ids.map Part.scope_ids).toList ++
    (filter.ids.map Part.ids).toList ++ (filter.pinned.map Part.pinned).toList ++ filter.metadata.map Part.metadata

/-- The fact satisfies the filter. -/
def FactFilter.Admits (filter : FactFilter) (f : Fact) : Prop := ∀ part ∈ filter.parts, part.Holds f

/-- Where SQL and the condition differ: two instants that do not sort as their texts, a
    metadata value that collides with the wanted one, and metadata too deep to be read. -/
def Part.Deviates (to_string : Json → String) (f : Fact) : Part → Prop
  | .begun t => ∃ x ∈ f.t_valid, ¬ (t.textLt x = true ↔ t < x)
  | .ongoing t => ∃ x ∈ f.t_invalid, ¬ (t.textLt x = true ↔ t < x)
  | .metadata predicate => (JSON_MAX_DEPTH < f.metadata.depth ∧ predicate.Holds f.metadata) ∨
      (f.metadata.depth ≤ JSON_MAX_DEPTH ∧ ∃ key v w, predicate = .KeyEquals key w ∧ topLevel key f.metadata = some v ∧ Collides to_string v w)
  | _ => False

/-- SQL and the filter agree on the fact: they agree that it fails a part, or they differ
    on no part, or they differ on two parts in opposite ways. -/
def FactFilter.Agrees (to_string : Json → String) (filter : FactFilter) (f : Fact) : Prop :=
  (∃ part ∈ filter.parts, ¬ part.Deviates to_string f ∧ ¬ part.Holds f) ∨ (∀ part ∈ filter.parts, ¬ part.Deviates to_string f) ∨
    ((∃ part ∈ filter.parts, part.Deviates to_string f ∧ part.Holds f) ∧ ∃ part ∈ filter.parts, part.Deviates to_string f ∧ ¬ part.Holds f)

/-! The path of a key leads to the key. -/

theorem readLabel_escaped (key rest : List Char) :
    readLabel (replaceChar '"' ['\\','"'] (replaceChar '\\' ['\\','\\'] key) ++ '"' :: rest) = some (key,rest) := by
  induction key with
  | nil => simp [replaceChar]
  | cons c key ih =>
    by_cases slash : c = '\\'
    · subst slash
      have escaped : replaceChar '"' ['\\','"'] (replaceChar '\\' ['\\','\\'] ('\\' :: key)) =
          '\\' :: '\\' :: replaceChar '"' ['\\','"'] (replaceChar '\\' ['\\','\\'] key) := by
        simp [replaceChar]
      rw [escaped,List.cons_append,List.cons_append,readLabel_escape,ih]
      simp [escapeChar]
    · by_cases quote : c = '"'
      · subst quote
        have escaped : replaceChar '"' ['\\','"'] (replaceChar '\\' ['\\','\\'] ('"' :: key)) =
            '\\' :: '"' :: replaceChar '"' ['\\','"'] (replaceChar '\\' ['\\','\\'] key) := by
          simp [replaceChar]
        rw [escaped,List.cons_append,List.cons_append,readLabel_escape,ih]
        simp [escapeChar]
      · have plain : replaceChar '"' ['\\','"'] (replaceChar '\\' ['\\','\\'] (c :: key)) =
            c :: replaceChar '"' ['\\','"'] (replaceChar '\\' ['\\','\\'] key) := by
          simp [replaceChar,slash,quote]
        rw [plain,List.cons_append,readLabel_plain _ quote slash,ih]
        rfl

theorem topLabel_json_path (key : String) : topLabel (json_path key) = some key := by
  simp [topLabel,json_path,readLabel_escaped]

theorem lookup_json_path (key : String) (j : Json) :
    lookup (json_path key) j = if JSON_MAX_DEPTH < j.depth then .error (.Storage "malformed JSON") else .ok (topLevel key j) := by
  rw [lookup,topLabel_json_path]

/-! Each conjunct against its parts. -/

/-- SQL takes the part for true: it holds and SQL does not differ, or the other way round. -/
def Part.Passes (to_string : Json → String) (f : Fact) (part : Part) : Prop := part.Holds f ↔ ¬ part.Deviates to_string f

variable {to_string : Json → String} {f : Fact}

theorem passes_of_sound {part : Part} (sound : ¬ part.Deviates to_string f) : part.Passes to_string f ↔ part.Holds f := by
  unfold Part.Passes
  tauto

theorem passes_unexpired : Part.unexpired.Passes to_string f ↔ f.t_expired.isNone = true := by
  rw [passes_of_sound (by simp [Part.Deviates]),Option.isNone_iff_eq_none]
  rfl

theorem passes_dated : Part.dated.Passes to_string f ↔ f.t_valid.isSome = true := by
  rw [passes_of_sound (by simp [Part.Deviates]),Option.isSome_iff_ne_none]
  rfl

theorem passes_begun {t : DateTime} : (Part.begun t).Passes to_string f ↔ ∀ x ∈ f.t_valid, t.textLt x = false := by
  unfold Part.Passes
  cases column : f.t_valid with
  | none => simp [Part.Holds,Part.Deviates,column]
  | some x =>
    simp only [Part.Holds,Part.Deviates,column,Option.mem_some,forall_eq',exists_eq_left',not_not]
    rw [← not_lt]
    by_cases late : t < x
    · by_cases spelled : t.textLt x = true
      · simp [late,spelled]
      · simp [late,spelled]
    · by_cases spelled : t.textLt x = true
      · simp [late,spelled]
      · simp [late,spelled]

theorem passes_ongoing {t : DateTime} : (Part.ongoing t).Passes to_string f ↔ ∀ x ∈ f.t_invalid, t.textLt x = true := by
  unfold Part.Passes
  cases column : f.t_invalid with
  | none => simp [Part.Holds,Part.Deviates,column]
  | some x =>
    simp only [Part.Holds,Part.Deviates,column,Option.mem_some,forall_eq',exists_eq_left',not_not]
    by_cases late : t < x
    · simp [late]
    · simp [late]

theorem unset_or_notAfter {column : Option DateTime} {t : DateTime} :
    sqlOr (some column.isNone) (Conjunct.notAfter column t) = some true ↔ ∀ x ∈ column, t.textLt x = false := by
  rw [sqlOr_eq_true]
  cases column <;> simp [Conjunct.notAfter]

theorem unset_or_isAfter {column : Option DateTime} {t : DateTime} :
    sqlOr (some column.isNone) (Conjunct.isAfter column t) = some true ↔ ∀ x ∈ column, t.textLt x = true := by
  rw [sqlOr_eq_true]
  cases column <;> simp [Conjunct.isAfter]

/-- The conjunct of a temporal filter is true exactly when its parts pass. -/
theorem value_temporal (temporal : TemporalFilter) :
    (∀ conjunct ∈ push_temporal temporal, conjunct.value to_string f = .ok (some true)) ↔
      ∀ part ∈ temporal.parts, part.Passes to_string f := by
  cases temporal with
  | IncludeExpired => simp [push_temporal,TemporalFilter.parts]
  | Active =>
    simp only [push_temporal,TemporalFilter.parts,List.forall_mem_singleton,Conjunct.value,Except.ok.injEq,Option.some.injEq]
    rw [passes_unexpired]
  | AsOf t =>
    simp only [push_temporal,TemporalFilter.parts,List.forall_mem_singleton,List.forall_mem_cons,Conjunct.value,Except.ok.injEq,
      sqlAnd_eq_true,unset_or_notAfter,unset_or_isAfter,Option.some.injEq]
    rw [passes_unexpired,passes_begun,passes_ongoing,and_assoc]
  | ValidDue t =>
    simp only [push_temporal,TemporalFilter.parts,List.forall_mem_singleton,List.forall_mem_cons,Conjunct.value,Except.ok.injEq,
      sqlAnd_eq_true,unset_or_isAfter,Option.some.injEq]
    rw [passes_unexpired,passes_dated,passes_begun,passes_ongoing]
    cases column : f.t_valid with
    | none => simp
    | some x => simp [Conjunct.notAfter,and_assoc]

theorem fact_type_to_str_injective : Function.Injective fact_type_to_str := by
  intro a b same
  cases a <;> cases b <;> first | rfl | simp [fact_type_to_str] at same

/-- Metadata too deep to be read passes no predicate. -/
theorem not_passes_deep (predicate : MetadataPredicate) (deep : JSON_MAX_DEPTH < f.metadata.depth) :
    ¬ (Part.metadata predicate).Passes to_string f := by
  unfold Part.Passes
  have deviates : (Part.metadata predicate).Deviates to_string f ↔ (Part.metadata predicate).Holds f := by
    constructor
    · rintro (⟨_,holds⟩ | ⟨shallow,_⟩)
      · exact holds
      · omega
    · exact fun holds => .inl ⟨deep,holds⟩
  rw [deviates]
  exact fun same => iff_not_self same

/-- A predicate other than equality with a value is read as it is meant. -/
theorem passes_key {predicate : MetadataPredicate} (shallow : ¬ JSON_MAX_DEPTH < f.metadata.depth)
    (apart : ∀ key v w, predicate = .KeyEquals key w → topLevel key f.metadata = some v → ¬ Collides to_string v w) :
    (Part.metadata predicate).Passes to_string f ↔ predicate.Holds f.metadata := by
  refine passes_of_sound ?_
  rintro (⟨deep,_⟩ | ⟨_,key,v,w,same,found,collides⟩)
  · exact shallow deep
  · exact apart key v w same found collides

/-- Equality with a value passes on the value and on what collides with it. -/
theorem passes_key_equals {key : String} {w : Json} (shallow : ¬ JSON_MAX_DEPTH < f.metadata.depth) :
    (Part.metadata (.KeyEquals key w)).Passes to_string f ↔ ∃ v, topLevel key f.metadata = some v ∧ (v = w ∨ Collides to_string v w) := by
  have deviates : (Part.metadata (.KeyEquals key w)).Deviates to_string f ↔ ∃ v, topLevel key f.metadata = some v ∧ Collides to_string v w := by
    constructor
    · rintro (⟨deep,_⟩ | ⟨_,key',v,w',same,found,collides⟩)
      · exact absurd deep shallow
      · cases same
        exact ⟨v,found,collides⟩
    · rintro ⟨v,found,collides⟩
      exact .inr ⟨not_lt.mp shallow,key,v,w,rfl,found,collides⟩
  unfold Part.Passes
  rw [deviates]
  show (topLevel key f.metadata = some w ↔ _) ↔ _
  cases topLevel key f.metadata with
  | none => simp
  | some v =>
    simp only [Option.some.injEq,exists_eq_left']
    by_cases collides : Collides to_string v w
    · simp [collides,collides.ne]
    · simp [collides]

theorem is_null_sqlValue {v : Json} : Conjunct.is_null (sqlValue to_string v) = true ↔ v = .null := by
  cases v with
  | int i =>
    by_cases fits : Fits i
    · simp [sqlValue,fits,Conjunct.is_null]
    · have number := ofInt_ne_nan i
      cases rounded : F64.ofInt i with
      | nan => exact absurd rounded number
      | num x => simp [sqlValue,fits,rounded,SqlValue.ofF64,Conjunct.is_null]
  | _ => simp [sqlValue,Conjunct.is_null]

theorem value_to_sql_eq {v : Json} {bound : SqlValue} (made : value_to_sql v = .ok bound) :
    bound = sqlValue to_string v ∧ v ≠ .null ∧ (∀ items, v ≠ .arr items) ∧ ∀ fields, v ≠ .obj fields := by
  cases v with
  | null => cases made
  | arr items => cases made
  | obj fields => cases made
  | _ =>
    cases made
    exact ⟨rfl,by simp,by simp,by simp⟩

/-- A metadata conjunct is true exactly when its part passes. -/
theorem value_metadata {predicate : MetadataPredicate} {conjunct : Conjunct} (pushed : push_metadata predicate = .ok conjunct) :
    conjunct.value to_string f = .ok (some true) ↔ (Part.metadata predicate).Passes to_string f := by
  by_cases deep : JSON_MAX_DEPTH < f.metadata.depth
  · have failing : ∀ key, lookup (json_path key) f.metadata = .error (.Storage "malformed JSON") := by
      intro key
      rw [lookup_json_path,if_pos deep]
    refine iff_of_false ?_ (not_passes_deep predicate deep)
    cases predicate with
    | KeyAbsent key =>
      cases pushed
      simp [Conjunct.value,json_type,failing,Except.map]
    | KeyPresent key =>
      cases pushed
      simp [Conjunct.value,json_extract,failing,Except.map]
    | KeyEquals key w =>
      have refused : ∀ bound, (Conjunct.key_equals (json_path key) bound).value to_string f ≠ .ok (some true) := by
        intro bound
        simp [Conjunct.value,json_extract,failing,Except.map]
      cases w with
      | null =>
        cases pushed
        simp [Conjunct.value,json_type,failing,Except.map]
      | arr items => cases pushed
      | obj fields => cases pushed
      | _ =>
        cases pushed
        exact refused _
  · have found : ∀ key, lookup (json_path key) f.metadata = .ok (topLevel key f.metadata) := by
      intro key
      rw [lookup_json_path,if_neg deep]
    cases predicate with
    | KeyAbsent key =>
      cases pushed
      rw [passes_key deep (fun _ _ _ same => by cases same)]
      simp only [Conjunct.value,json_type,found,Except.map,MetadataPredicate.Holds,Except.ok.injEq,Option.some.injEq]
      cases topLevel key f.metadata <;> simp [Conjunct.is_null]
    | KeyPresent key =>
      cases pushed
      rw [passes_key deep (fun _ _ _ same => by cases same)]
      simp only [Conjunct.value,json_extract,found,Except.map,MetadataPredicate.Holds,Except.ok.injEq,Option.some.injEq]
      cases topLevel key f.metadata with
      | none => simp [Conjunct.is_null]
      | some v =>
        rw [Bool.not_eq_true',← Bool.not_eq_true,is_null_sqlValue]
        simp
    | KeyEquals key w =>
      rw [passes_key_equals deep]
      have compared : ∀ bound, (Conjunct.key_equals (json_path key) bound).value to_string f = .ok (some true) ↔
          ∃ v, topLevel key f.metadata = some v ∧ (sqlValue to_string v).eq bound = some true := by
        intro bound
        simp only [Conjunct.value,json_extract,found,Except.map,Except.ok.injEq]
        cases topLevel key f.metadata with
        | none => simp [SqlValue.eq]
        | some v => simp
      have scalar : ∀ bound, value_to_sql w = .ok bound → ((Conjunct.key_equals (json_path key) bound).value to_string f = .ok (some true) ↔
          ∃ v, topLevel key f.metadata = some v ∧ (v = w ∨ Collides to_string v w)) := by
        intro bound made
        obtain ⟨rfl,present,flat⟩ : bound = sqlValue to_string w ∧ _ := value_to_sql_eq made
        rw [compared]
        refine exists_congr fun v => and_congr_right fun _ => ?_
        exact eq_sqlValue present flat
      cases w with
      | null =>
        cases pushed
        simp only [Conjunct.value,json_type,found,Except.map,Except.ok.injEq]
        cases topLevel key f.metadata with
        | none => simp [SqlValue.eq]
        | some v =>
          have apart : ¬ Collides to_string v .null := by
            intro collides
            cases collides with
            | number _ _ right => cases right
          simp [eq_text,typeName_eq_null,apart]
      | arr items => cases pushed
      | obj fields => cases pushed
      | _ =>
        cases pushed
        exact scalar _ rfl

/-! The whole clause. -/

/-- What holds of every result of a fallible map holds of every item, where each result
    says the same as its item. -/
theorem forall_mapM {α β : Type} {make : α → Except MemoryError β} {P : β → Prop} {Q : α → Prop}
    (each : ∀ x y, make x = .ok y → (P y ↔ Q x)) {items : List α} {results : List β} (made : items.mapM make = .ok results) :
    (∀ y ∈ results, P y) ↔ ∀ x ∈ items, Q x := by
  induction items generalizing results with
  | nil =>
    cases made
    simp
  | cons x rest ih =>
    rw [List.mapM_cons] at made
    cases head : make x with
    | error e =>
      rw [head] at made
      cases made
    | ok y =>
      cases tail : rest.mapM make with
      | error e =>
        rw [head,tail] at made
        cases made
      | ok ys =>
        rw [head,tail] at made
        cases made
        rw [List.forall_mem_cons,List.forall_mem_cons,each x y head,ih tail]

/-- The clause is true exactly when SQL takes every part for true. -/
theorem passes_iff {filter : FactFilter} {pre : String} {sql : FilterSql} (built : build_filter_sql filter pre = .ok sql) :
    sql.Passes to_string f ↔ ∀ part ∈ filter.parts, part.Passes to_string f := by
  obtain ⟨metadata,pushed,preds⟩ : ∃ metadata, filter.metadata.mapM push_metadata = .ok metadata ∧
      sql.preds = push_temporal filter.temporal ++ (filter.fact_type.map Conjunct.fact_type).toList ++
        (filter.scope_ids.map Conjunct.scope_ids).toList ++ (filter.ids.map Conjunct.ids).toList ++
          (filter.pinned.map Conjunct.pinned).toList ++ metadata := by
    cases pushed : filter.metadata.mapM push_metadata with
    | error e =>
      rw [build_filter_sql,pushed] at built
      cases built
    | ok metadata =>
      rw [build_filter_sql,pushed] at built
      cases built
      exact ⟨metadata,rfl,rfl⟩
  have typed : (∀ c ∈ (filter.fact_type.map Conjunct.fact_type).toList, c.value to_string f = .ok (some true)) ↔
      ∀ part ∈ (filter.fact_type.map Part.fact_type).toList, part.Passes to_string f := by
    cases filter.fact_type with
    | none => simp
    | some ft =>
      have sound : (Part.fact_type ft).Passes to_string f ↔ f.fact_type = ft := passes_of_sound (by simp [Part.Deviates])
      simp [Conjunct.value,sound,fact_type_to_str_injective.eq_iff]
  have placed : (∀ c ∈ (filter.scope_ids.map Conjunct.scope_ids).toList, c.value to_string f = .ok (some true)) ↔
      ∀ part ∈ (filter.scope_ids.map Part.scope_ids).toList, part.Passes to_string f := by
    cases filter.scope_ids with
    | none => simp
    | some given =>
      have sound : (Part.scope_ids given).Passes to_string f ↔ f.scope_id ∈ given := passes_of_sound (by simp [Part.Deviates])
      simp [Conjunct.value,sound]
  have listed : (∀ c ∈ (filter.ids.map Conjunct.ids).toList, c.value to_string f = .ok (some true)) ↔
      ∀ part ∈ (filter.ids.map Part.ids).toList, part.Passes to_string f := by
    cases filter.ids with
    | none => simp
    | some given =>
      have sound : (Part.ids given).Passes to_string f ↔ f.id ∈ given := passes_of_sound (by simp [Part.Deviates])
      simp [Conjunct.value,sound]
  have pinned : (∀ c ∈ (filter.pinned.map Conjunct.pinned).toList, c.value to_string f = .ok (some true)) ↔
      ∀ part ∈ (filter.pinned.map Part.pinned).toList, part.Passes to_string f := by
    cases filter.pinned with
    | none => simp
    | some b =>
      have sound : (Part.pinned b).Passes to_string f ↔ f.is_pinned = b := passes_of_sound (by simp [Part.Deviates])
      have compared : SqlValue.eq (.integer (if f.is_pinned then 1 else 0)) (.integer (if b then 1 else 0)) = some true ↔ f.is_pinned = b := by
        cases f.is_pinned <;> cases b <;> decide
      simp [Conjunct.value,sound,compared]
  have keyed : (∀ c ∈ metadata, c.value to_string f = .ok (some true)) ↔
      ∀ part ∈ filter.metadata.map Part.metadata, part.Passes to_string f := by
    rw [forall_mapM (fun _ _ one => value_metadata one) pushed,List.forall_mem_map]
  unfold FilterSql.Passes FactFilter.parts
  rw [preds]
  simp only [List.forall_mem_append,value_temporal,typed,placed,listed,pinned,keyed]

/-- Where each part is taken for true when it holds and does not deviate, or the other way
    round, all are taken for true exactly when all hold in three cases. -/
theorem agree_iff {α : Type} {parts : List α} {Holds Deviates : α → Prop} :
    ((∀ p ∈ parts, (Holds p ↔ ¬ Deviates p)) ↔ ∀ p ∈ parts, Holds p) ↔
      (∃ p ∈ parts, ¬ Deviates p ∧ ¬ Holds p) ∨ (∀ p ∈ parts, ¬ Deviates p) ∨
        ((∃ p ∈ parts, Deviates p ∧ Holds p) ∧ ∃ p ∈ parts, Deviates p ∧ ¬ Holds p) := by
  constructor
  · intro agree
    by_cases failing : ∃ p ∈ parts, ¬ Deviates p ∧ ¬ Holds p
    · exact .inl failing
    by_cases sound : ∀ p ∈ parts, ¬ Deviates p
    · exact .inr (.inl sound)
    push Not at failing sound
    obtain ⟨d,member,deviates⟩ := sound
    refine .inr (.inr ?_)
    by_cases holds : Holds d
    · refine ⟨⟨d,member,deviates,holds⟩,?_⟩
      -- SQL rejects the part that holds, so the fact fails another one
      have rejected : ¬ ∀ p ∈ parts, Holds p := fun all => ((agree.mpr all) d member).mp holds deviates
      push Not at rejected
      obtain ⟨p,listed,fails⟩ := rejected
      exact ⟨p,listed,by_contra fun agrees => fails (failing p listed agrees),fails⟩
    · refine ⟨?_,⟨d,member,deviates,holds⟩⟩
      have rejected : ¬ ∀ p ∈ parts, (Holds p ↔ ¬ Deviates p) := fun all => holds (agree.mp all d member)
      push Not at rejected
      obtain ⟨p,listed,⟨held,differs⟩ | ⟨fails,agrees⟩⟩ := rejected
      · exact ⟨p,listed,differs,held⟩
      · exact absurd (failing p listed agrees) fails
  · rintro (⟨p,member,agrees,fails⟩ | sound | ⟨⟨p,member,differs,holds⟩,q,member',differs',fails⟩)
    · exact iff_of_false (fun all => fails ((all p member).mpr agrees)) (fun all => fails (all p member))
    · exact forall₂_congr fun p member => by simp [sound p member]
    · exact iff_of_false (fun all => (all p member).mp holds differs) (fun all => fails (all q member'))

/-- The clause is true of exactly the facts that satisfy the filter, unless the two differ
    on some part of it and no other part settles the matter. -/
theorem build_filter_sql_iff {filter : FactFilter} {pre : String} {sql : FilterSql} (built : build_filter_sql filter pre = .ok sql)
    (to_string : Json → String) (f : Fact) : (sql.Passes to_string f ↔ filter.Admits f) ↔ filter.Agrees to_string f := by
  rw [passes_iff built]
  exact agree_iff

/-- The filter of a query sets a type and scopes at most. -/
def ofQuery (filter : MemoryEngine.FactFilter) : FactFilter := { fact_type := filter.fact_type, scope_ids := filter.scope_ids }

theorem forall_parts_ofQuery {filter : MemoryEngine.FactFilter} {P : Part → Prop} : (∀ part ∈ (ofQuery filter).parts, P part) ↔
    P .unexpired ∧ (∀ ft ∈ filter.fact_type, P (.fact_type ft)) ∧ ∀ ids ∈ filter.scope_ids, P (.scope_ids ids) := by
  cases typed : filter.fact_type <;> cases placed : filter.scope_ids <;>
    simp [ofQuery,typed,placed,FactFilter.parts,TemporalFilter.parts]

theorem passes_ofQuery {filter : MemoryEngine.FactFilter} {pre : String} {sql : FilterSql}
    (built : build_filter_sql (ofQuery filter) pre = .ok sql) : sql.Passes to_string f ↔ filter.admits f = true := by
  have sound : (Part.unexpired.Passes to_string f ↔ f.t_expired = none) ∧ (∀ ft, (Part.fact_type ft).Passes to_string f ↔ f.fact_type = ft) ∧
      ∀ ids, (Part.scope_ids ids).Passes to_string f ↔ f.scope_id ∈ ids :=
    ⟨passes_of_sound (by simp [Part.Deviates]),fun _ => passes_of_sound (by simp [Part.Deviates]),fun _ => passes_of_sound (by simp [Part.Deviates])⟩
  rw [passes_iff built,forall_parts_ofQuery,FactFilter.admits_iff]
  simp only [sound]
end SearchIndex

namespace Sample

/-- A fact whose metadata counts one under `k`. -/
def tallied : Fact := FactStore.newRow backend { newFact "a" with metadata := .obj [("k",.int 1)] } 0 1

/-- Facts on which `k` is true. -/
def flagged : SearchIndex.FactFilter := { metadata := [.KeyEquals "k" (.bool true)] }

end Sample

theorem SearchIndex.build_filter_sql_iff_sample : ∃ sql, SearchIndex.build_filter_sql Sample.flagged "" = .ok sql ∧
    ((sql.Passes (fun _ => "") Sample.tallied ↔ Sample.flagged.Admits Sample.tallied) ↔ Sample.flagged.Agrees (fun _ => "") Sample.tallied) := by
  have built : ∃ sql, SearchIndex.build_filter_sql Sample.flagged "" = .ok sql := ⟨_,rfl⟩
  obtain ⟨sql,made⟩ := built
  exact ⟨sql,made,SearchIndex.build_filter_sql_iff made _ _⟩

/-- A filter on `true` lets the number one through. -/
theorem SearchIndex.true_matches_one : ¬ ∀ (to_string : Json → String) (filter : SearchIndex.FactFilter) (pre : String)
    (sql : SearchIndex.FilterSql) (f : Fact), SearchIndex.build_filter_sql filter pre = .ok sql →
      (sql.Passes to_string f ↔ filter.Admits f) := by
  intro claim
  have agreed := claim (fun _ => "") Sample.flagged "" _ Sample.tallied rfl
  have passed : ∀ conjunct ∈ [SearchIndex.Conjunct.active,.key_equals (SearchIndex.json_path "k") (.integer 1)],
      conjunct.value (fun _ => "") Sample.tallied = .ok (some true) := by
    refine List.forall_mem_cons.mpr ⟨rfl,List.forall_mem_singleton.mpr ?_⟩
    have shallow : ¬ SqlJson.JSON_MAX_DEPTH < Sample.tallied.metadata.depth := by decide
    rw [SearchIndex.Conjunct.value,SqlJson.json_extract,SearchIndex.lookup_json_path,if_neg shallow]
    rfl
  have listed : SearchIndex.Part.metadata (.KeyEquals "k" (.bool true)) ∈ Sample.flagged.parts := by
    simp [Sample.flagged,SearchIndex.FactFilter.parts,SearchIndex.TemporalFilter.parts]
  have admitted := agreed.mp passed _ listed
  have found : SqlJson.topLevel "k" Sample.tallied.metadata = some (.bool true) := admitted
  cases found

end MemoryEngine
