import MemoryEngine.Ingest
import MemoryEngine.Readers

/-! The batch ingest of the command line. Records are read line by line under a limit, checked,
and handed to the engine in batches. -/

namespace MemoryEngine.BatchIngest
open Time Readers Readers.Source

/-- A record of the input. -/
structure JsonlFact where
  content : String
  fact_type : FactType
  source_event_id : Option Int
  scope : Option String
  base_importance : Option F64
  metadata : Option Json
  t_valid : Option DateTime
  t_invalid : Option DateTime
  pinned : Option Bool
  t_created : Option DateTime
  last_accessed : Option DateTime

/-- What ingest takes from linked libraries: the decoder of a record, and the texts of values. -/
structure IngestLibraries where
  from_str : String → Option JsonlFact
  float_text : F64 → String
  time_text : DateTime → String

def importance_error (libraries : IngestLibraries) (fact : JsonlFact) : Option String :=
  match fact.base_importance with
  | some imp =>
    if (F64.ofRat 0).le imp && imp.le (F64.ofRat 1) then none
    else some ("base_importance " ++ libraries.float_text imp ++ " out of range [0, 1]")
  | none => none

def validity_error (libraries : IngestLibraries) (fact : JsonlFact) : Option String :=
  match fact.t_valid,fact.t_invalid with
  | some tv,some ti =>
    if tv ≥ ti then some ("t_valid (" ++ libraries.time_text tv ++ ") must be before t_invalid (" ++ libraries.time_text ti ++ ")") else none
  | _,_ => none

def validate_jsonl_fact (libraries : IngestLibraries) (fact : JsonlFact) : Except String Unit :=
  match (importance_error libraries fact).or (validity_error libraries fact) with
  | some e => .error e
  | none => .ok ()

def jsonl_to_request (fact : JsonlFact) (default_scope : Option String) : AddFactRequest where
  content := fact.content
  fact_type := fact.fact_type
  source_event_id := fact.source_event_id
  scope := fact.scope.or default_scope
  opts := some {
    base_importance := fact.base_importance
    metadata := fact.metadata
    t_valid := fact.t_valid
    t_invalid := fact.t_invalid
    pinned := fact.pinned
    t_created := fact.t_created
    last_accessed := fact.last_accessed }

def MAX_LINE_BYTES : Nat := 8 * 2 ^ 20

structure BatchTally where
  ingested : Nat
  skipped : Nat
  failed_batches : Nat

structure IngestSummary where
  total_ingested : Nat
  total_skipped : Nat
  failed_batches : Nat

/-- No fact was ingested, and some line was skipped. -/
structure NoFacts where
  skipped : Nat
  failed_batches : Nat

def NoFacts.message (e : NoFacts) : String :=
  "no facts ingested (" ++ toString e.skipped ++ " skipped, " ++ toString e.failed_batches ++ " failed batches)"

/-- The engine, as the ingest sees it: a batch ends with a result for each record, or fails. -/
abbrev Submit (ε : Type) := List AddFactRequest → ε → Except MemoryError (List (Except MemoryError FactId)) × ε

/-- What the loop keeps. `batch_lines` are the lines of the records of `batch`. -/
structure Ingesting (ε : Type) where
  engine : ε
  tally : BatchTally
  batch : List AddFactRequest
  batch_lines : List Nat
  line_no : Nat

section ingest
variable (libraries : IngestLibraries) {ε : Type} ( add_facts_batch_partial : Submit ε) (batch_size : Nat) (default_scope : Option String)

def isOk {α β : Type} : Except α β → Bool
  | .ok _ => true
  | .error _ => false

/-- The batch goes to the engine. A record that the engine rejects is skipped alone; with a
    batch that fails all its records are. -/
def flush_batch (s : Ingesting ε) : Bool × Ingesting ε :=
  if s.batch = [] then (true,s) else
    let chunk_size := s.batch.length
    let (outcome,engine) := add_facts_batch_partial s.batch s.engine
    match outcome with
    | .ok results =>
      let inserted := (s.batch_lines.zip results).countP fun r => isOk r.2
      (true,{ s with
        engine, batch := [], batch_lines := []
        tally := { s.tally with ingested := s.tally.ingested + inserted, skipped := s.tally.skipped + (chunk_size - inserted) } })
    | .error _ =>
      (false,{ s with
        engine, batch := [], batch_lines := []
        tally := { s.tally with skipped := s.tally.skipped + chunk_size, failed_batches := s.tally.failed_batches + 1 } })

def Ingesting.skip (s : Ingesting ε) : Ingesting ε := { s with tally := { s.tally with skipped := s.tally.skipped + 1 } }

/-- The record of a line, where it has one that is valid. -/
def Ingesting.take_line (s : Ingesting ε) (line : String) : Ingesting ε :=
  let trimmed := trim line
  if trimmed = "" then s else
    match libraries.from_str trimmed with
    | none => s.skip
    | some fact =>
      match validate_jsonl_fact libraries fact with
      | .error _ => s.skip
      | .ok _ =>
        let s := { s with batch := s.batch ++ [jsonl_to_request fact default_scope], batch_lines := s.batch_lines ++ [s.line_no] }
        if batch_size ≤ s.batch.length then (flush_batch add_facts_batch_partial s).2 else s

/-- Reading a line under the limit leaves less to read. -/
theorem read_line_shorter {ρ : Type} [BufRead ρ] {reader : ρ} {limit n : Nat} {line : String} {taken : Take ρ}
    (got : read_line (⟨reader,limit⟩ : Take ρ) "" = (.ok n,line,taken)) (more : n ≠ 0) :
    (stream taken.inner).bytes.length < (stream reader).bytes.length := by
  have reads := reads_line reader limit ""
  rw [got] at reads
  cases reads with
  | line line later decoded closed rest =>
    rw [rest,Stream.drop,List.length_drop]
    have within := length_upto_le LF (stream reader).bytes
    have part : ((upto LF (stream reader).bytes).take limit).length ≤ (upto LF (stream reader).bytes).length := List.length_take_le' ..
    omega

theorem skip_until_le {ρ : Type} [BufRead ρ] {reader later : ρ} {n : Nat} (got : skip_until LF reader 0 = (.ok n,later)) :
    (stream later).bytes.length ≤ (stream reader).bytes.length := by
  have skips := @skips_until ρ _ LF reader 0
  rw [got] at skips
  cases skips with
  | line later closed rest =>
    rw [rest,← drop_upto,List.length_drop]
    exact Nat.sub_le ..

/-- Line after line. A line that is too long is skipped with what is left of it; an error of the
    read ends the loop. -/
def ingest_loop {ρ : Type} [BufRead ρ] (reader : ρ) (s : Ingesting ε) : Ingesting ε :=
  match _got : read_line (⟨reader,MAX_LINE_BYTES + 1⟩ : Take ρ) "" with
  | (.error _,_,_) => Ingesting.skip { s with line_no := s.line_no + 1 }
  | (.ok n,line,taken) =>
    if n = 0 then s
    else if MAX_LINE_BYTES < n then
      if line.toList.getLast? = some '\n' then ingest_loop taken.inner (Ingesting.skip { s with line_no := s.line_no + 1 })
      else
        match _skipped : skip_until LF taken.inner 0 with
        | (.error _,_) => Ingesting.skip { s with line_no := s.line_no + 1 }
        | (.ok _,later) => ingest_loop later (Ingesting.skip { s with line_no := s.line_no + 1 })
    else
      ingest_loop taken.inner
        (Ingesting.take_line libraries add_facts_batch_partial batch_size default_scope { s with line_no := s.line_no + 1 } line)
termination_by (stream reader).bytes.length
decreasing_by
  · exact read_line_shorter _got ‹_›
  · exact (skip_until_le _skipped).trans_lt (read_line_shorter _got ‹_›)
  · exact read_line_shorter _got ‹_›

/-- The lines are read and the last batch is flushed. -/
def ingest_run {ρ : Type} [Read ρ] (engine : ε) (reader : ρ) : Ingesting ε :=
  (flush_batch add_facts_batch_partial
    (ingest_loop libraries add_facts_batch_partial batch_size default_scope (BufReader.new reader) ⟨engine,⟨0,0,0⟩,[],[],0⟩)).2

def BatchTally.report (tally : BatchTally) : Except NoFacts IngestSummary :=
  if tally.ingested = 0 ∧ 0 < tally.skipped then .error ⟨tally.skipped,tally.failed_batches⟩
  else .ok ⟨tally.ingested,tally.skipped,tally.failed_batches⟩

def ingest_from_reader {ρ : Type} [Read ρ] (engine : ε) (reader : ρ) : Except NoFacts IngestSummary × ε :=
  let s := ingest_run libraries add_facts_batch_partial batch_size default_scope engine reader
  (s.tally.report,s.engine)

end ingest
end MemoryEngine.BatchIngest
