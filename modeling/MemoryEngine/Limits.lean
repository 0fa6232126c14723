import MemoryEngine.Types

/-! Ingest-time payload caps. The serialized size of a JSON document is counted
over the pieces the serializer writes, and the count stops at the first piece
that passes the cap. -/

namespace MemoryEngine

def MAX_PAYLOAD_BYTES : Nat := 1024 * 1024

/-- Bytes of one escaped character, or none when the character stands as it is. -/
def escapeSize (c : Char) : Option Nat :=
  if c = '"' ∨ c = '\\' ∨ c = '\n' ∨ c = '\r' ∨ c = '\t' ∨ c.toNat = 8 ∨ c.toNat = 12 then some 2
  else if c.toNat < 32 then some 6 else none

/-- Pieces of a string body: the runs between escapes and the escapes. -/
def bodyPieces : Nat → List Char → List Nat
  | 0,[] => []
  | run,[] => [run]
  | run,c :: rest =>
    match escapeSize c with
    | none => bodyPieces (run + c.utf8Size) rest
    | some size => (if run = 0 then [] else [run]) ++ size :: bodyPieces 0 rest

def stringPieces (s : String) : List Nat := 1 :: bodyPieces 0 s.toList ++ [1]

section pieces
-- `float_text` is the text the serializer gives a double.
variable (float_text : SqlReal → String)

mutual
/-- Sizes of the pieces written for a document. -/
def Json.pieces : Json → List Nat
  | .null => [4]
  | .bool b => [if b then 4 else 5]
  | .int i => [(toString i).utf8ByteSize]
  | .float x => [(float_text x).utf8ByteSize]
  | .str s => stringPieces s
  | .arr items => 1 :: itemPieces items ++ [1]
  | .obj fields => 1 :: fieldPieces fields ++ [1]
def itemPieces : List Json → List Nat
  | [] => []
  | [item] => Json.pieces item
  | item :: rest => Json.pieces item ++ 1 :: itemPieces rest
def fieldPieces : List (String × Json) → List Nat
  | [] => []
  | [(k,v)] => stringPieces k ++ 1 :: Json.pieces v
  | (k,v) :: rest => stringPieces k ++ 1 :: Json.pieces v ++ 1 :: fieldPieces rest
end

/-- Count pieces until the running total passes the limit. -/
def countPieces (limit : Nat) : Nat → List Nat → Except Nat Nat
  | count,[] => .ok count
  | count,piece :: rest => if count + piece > limit then .error (count + piece) else countPieces limit (count + piece) rest

def serialized_len (value : Json) (limit : Nat) : Except Nat Nat := countPieces limit 0 (value.pieces float_text)

def check_json_size (value : Json) (kind : String) : Except MemoryError Unit :=
  match serialized_len float_text value MAX_PAYLOAD_BYTES with
  | .ok _ => .ok ()
  | .error size => .error (.Conflict (.PayloadTooLarge kind size MAX_PAYLOAD_BYTES))

end pieces

def check_str_size (s kind : String) : Except MemoryError Unit :=
  if s.utf8ByteSize > MAX_PAYLOAD_BYTES then .error (.Conflict (.PayloadTooLarge kind s.utf8ByteSize MAX_PAYLOAD_BYTES))
  else .ok ()

def check_new_fact (float_text : SqlReal → String) (fact : NewFact) : Except MemoryError Unit := do
  check_str_size fact.content "fact content"
  check_json_size float_text fact.metadata "fact metadata"

theorem check_str_size_ok {s kind : String} {u : Unit} : check_str_size s kind = .ok u ↔ s.utf8ByteSize ≤ MAX_PAYLOAD_BYTES := by
  rw [check_str_size]
  by_cases beyond : s.utf8ByteSize > MAX_PAYLOAD_BYTES
  · simp [if_pos beyond,Nat.not_le.mpr beyond]
  · simp [if_neg beyond,Nat.le_of_not_lt beyond]

theorem countPieces_ok (limit count : Nat) (pieces : List Nat) :
    (∃ total, countPieces limit count pieces = .ok total) ↔ pieces = [] ∨ count + pieces.sum ≤ limit := by
  induction pieces generalizing count with
  | nil => simp [countPieces]
  | cons piece rest ih =>
    rw [countPieces]
    by_cases beyond : count + piece > limit
    · rw [if_pos beyond]
      simp only [reduceCtorEq,exists_false,List.sum_cons,false_or,false_iff]
      omega
    · rw [if_neg beyond,ih]
      simp only [List.sum_cons,reduceCtorEq,false_or]
      constructor
      · rintro (rfl | within)
        · simpa using Nat.le_of_not_lt beyond
        · omega
      · intro within
        exact .inr (by omega)

/-- A document is accepted exactly when its serialized form fits the cap. -/
theorem check_json_size_ok (float_text : SqlReal → String) (value : Json) (kind : String) :
    check_json_size float_text value kind = .ok () ↔ (value.pieces float_text).sum ≤ MAX_PAYLOAD_BYTES := by
  have counted := countPieces_ok MAX_PAYLOAD_BYTES 0 (value.pieces float_text)
  have fits : (∃ total, countPieces MAX_PAYLOAD_BYTES 0 (value.pieces float_text) = .ok total) ↔
      (value.pieces float_text).sum ≤ MAX_PAYLOAD_BYTES := by
    rw [counted,Nat.zero_add]
    constructor
    · rintro (empty | within)
      · simp [empty]
      · exact within
    · exact .inr
  rw [← fits,check_json_size,serialized_len]
  cases countPieces MAX_PAYLOAD_BYTES 0 (value.pieces float_text) with
  | ok total => simp
  | error size => simp

end MemoryEngine
