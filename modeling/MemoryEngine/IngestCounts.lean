import MemoryEngine.IngestLines

/-! What a batch ingest takes in: the records of the lines it reads, each once, and a count of every
line that is not blank. It stops at a line that is no text as far as it is read. -/

namespace MemoryEngine.BatchIngest
open Readers Readers.Source

/-! ## The lines -/

/-- A line of the input, or the one behind which its source fails. -/
abbrev Item := Option (List UInt8)

inductive Outcome where
  | blank
  | skipped
  | record (request : AddFactRequest)

section outcomes
variable (libraries : IngestLibraries) (default_scope : Option String)

def outcome_of_text (text : String) : Outcome :=
  if trim text = "" then .blank else
    match libraries.from_str (trim text) with
    | none => .skipped
    | some fact =>
      match validate_jsonl_fact libraries fact with
      | .error _ => .skipped
      | .ok _ => .record (jsonl_to_request fact default_scope)

/-- What should become of a line. -/
def outcome : Item → Outcome
  | none => .skipped
  | some line =>
    if MAX_LINE_BYTES < line.length then .skipped else
      match from_utf8 line with
      | none => .skipped
      | some text => outcome_of_text libraries default_scope text

/-- The line is not blank; a line that is too long counts whatever it holds. -/
def counts (item : Item) : Bool :=
  match outcome libraries default_scope item with
  | .blank => false
  | _ => true

def record? (item : Item) : Option AddFactRequest :=
  match outcome libraries default_scope item with
  | .record request => some request
  | _ => none

end outcomes

/-- The line is text, as far as it is read. -/
def readable : Item → Bool
  | none => false
  | some line => (from_utf8 (line.take (MAX_LINE_BYTES + 1))).isSome

/-- The lines up to the first that is not readable, and the ones behind it. -/
def readItems : List Item → List Item
  | [] => []
  | item :: rest => if readable item then item :: readItems rest else [item]

def unread : List Item → List Item
  | [] => []
  | item :: rest => if readable item then unread rest else rest

theorem read_append_unread (items : List Item) : readItems items ++ unread items = items := by
  induction items with
  | nil => rfl
  | cons item rest ih =>
    rw [readItems,unread]
    by_cases text : readable item = true
    · rw [if_pos text,if_pos text,List.cons_append,ih]
    · rw [if_neg text,if_neg text]
      rfl

/-! ## Reading a line -/

section reading
variable {ρ : Type} [BufRead ρ]

/-- What reading under the limit shows of the lines that are left. -/
inductive NextLine (s : Stream) : Except ErrorKind Nat × String × Take ρ → Prop where
  | ended (text : String) (later : Take ρ) (none_ : s.items LF = []) : NextLine s (.ok 0,text,later)
  | stopped (e : ErrorKind) (text : String) (later : Take ρ) (item : Item) (rest : List Item) (bad : readable item = false)
      (lines_ : s.items LF = item :: rest) : NextLine s (.error e,text,later)
  | short (line : List UInt8) (text : String) (later : Take ρ) (some_ : line.length ≠ 0) (fits : line.length ≤ MAX_LINE_BYTES)
      (decoded : from_utf8 line = some text) (lines_ : s.items LF = some line :: (stream later.inner).items LF) :
      NextLine s (.ok line.length,text,later)
  | long (line : List UInt8) (text : String) (later : Take ρ) (beyond : MAX_LINE_BYTES < line.length)
      (decoded : from_utf8 (line.take (MAX_LINE_BYTES + 1)) = some text) (closed : text.toList.getLast? = some '\n')
      (lines_ : s.items LF = some line :: (stream later.inner).items LF) :
      NextLine s (.ok (line.take (MAX_LINE_BYTES + 1)).length,text,later)
  | cut (text : String) (later : Take ρ) (beyond : MAX_LINE_BYTES < s.bytes.length) (absent : LF ∉ s.bytes.take (MAX_LINE_BYTES + 1))
      (decoded : from_utf8 (s.bytes.take (MAX_LINE_BYTES + 1)) = some text) (open_ : text.toList.getLast? ≠ some '\n')
      (rest : stream later.inner = s.drop (MAX_LINE_BYTES + 1)) :
      NextLine s (.ok (s.bytes.take (MAX_LINE_BYTES + 1)).length,text,later)

/-- A line whose newline is within the limit is within the limit. -/
theorem take_upto_of_mem {l : List UInt8} {limit : Nat} (present : LF ∈ (upto LF l).take limit) : (upto LF l).take limit = upto LF l := by
  obtain ⟨front,absent,same⟩ := upto_of_mem (mem_upto.mp (List.mem_of_mem_take present))
  rw [same] at present ⊢
  apply List.take_of_length_le
  by_contra beyond
  rw [List.length_append,List.length_singleton] at beyond
  rw [List.take_append_of_le_length (by omega)] at present
  exact absent (List.mem_of_mem_take present)

/-- A whole line within the limit ends with its newline or with the stream. -/
theorem closed_of_fits {s : Stream} (fits : (upto LF s.bytes).length ≤ MAX_LINE_BYTES)
    (closed : LF ∈ s.bytes.take (MAX_LINE_BYTES + 1) ∨ MAX_LINE_BYTES + 1 ≤ s.bytes.length ∨ s.failure = none) :
    LF ∈ s.bytes ∨ s.failure = none := by
  rcases closed with member | beyond | ended
  · exact Or.inl (List.mem_of_mem_take member)
  · by_contra neither
    obtain ⟨absent,_⟩ := not_or.mp neither
    rw [upto_of_not_mem absent] at fits
    omega
  · exact Or.inr ended

/-- What is read of a line that goes on behind the limit has no newline at its end. -/
theorem cut_of_open {l : List UInt8} (beyond : MAX_LINE_BYTES < (upto LF l).length)
    (open_ : ((upto LF l).take (MAX_LINE_BYTES + 1)).getLast? ≠ some LF) :
    LF ∉ l.take (MAX_LINE_BYTES + 1) ∧ (upto LF l).take (MAX_LINE_BYTES + 1) = l.take (MAX_LINE_BYTES + 1) ∧ MAX_LINE_BYTES < l.length := by
  have outside : LF ∉ (upto LF l).take (MAX_LINE_BYTES + 1) := by
    intro inside
    refine open_ ?_
    rw [take_upto_of_mem inside]
    exact last_of_upto (mem_upto.mp (List.mem_of_mem_take inside))
  rw [take_upto] at outside
  have absent : LF ∉ l.take (MAX_LINE_BYTES + 1) := fun member => outside (mem_upto.mpr member)
  exact ⟨absent,by rw [take_upto,upto_of_not_mem absent],beyond.trans_le (length_upto_le LF l)⟩

theorem next_line (reader : ρ) : NextLine (stream reader) (read_line (⟨reader,MAX_LINE_BYTES + 1⟩ : Take ρ) "") := by
  have reads := reads_line reader (MAX_LINE_BYTES + 1) ""
  generalize read_line (⟨reader,MAX_LINE_BYTES + 1⟩ : Take ρ) "" = result at reads
  generalize stream reader = s at reads
  cases reads with
  | invalid later bad =>
    cases failed : s.failure with
    | none =>
      have some_ : s.bytes ≠ [] := by
        intro empty
        rw [empty] at bad
        exact absurd bad (by decide +kernel)
      exact .stopped _ _ later (some (upto LF s.bytes)) _ (by rw [readable,bad]; rfl) (Stream.items_of_line some_ (Or.inr failed))
    | some e =>
      by_cases present : LF ∈ s.bytes
      · exact .stopped _ _ later (some (upto LF s.bytes)) _ (by rw [readable,bad]; rfl) (Stream.items_of_mem present)
      · exact .stopped _ _ later none [] rfl (Stream.items_of_failure present failed)
  | failed e text later absent failed => exact .stopped e text later none [] rfl (Stream.items_of_failure absent failed)
  | line text later decoded closed rest =>
    rw [String.empty_append]
    by_cases none_ : ((upto LF s.bytes).take (MAX_LINE_BYTES + 1)).length = 0
    · -- nothing is read at the end only
      have empty : s.bytes = [] := by
        by_contra some_
        have front := (List.take_eq_nil_iff.mp (List.length_eq_zero_iff.mp none_)).resolve_left (by omega)
        exact upto_ne_nil some_ front
      rw [none_]
      refine .ended text later ?_
      rw [Stream.ended_of_closed (Nat.succ_pos MAX_LINE_BYTES) empty closed]
      exact Stream.items_ended
    · have some_ : s.bytes ≠ [] := by
        intro empty
        rw [empty] at none_
        exact none_ rfl
      by_cases fits : (upto LF s.bytes).length ≤ MAX_LINE_BYTES
      · -- the whole line is within the limit
        have whole : (upto LF s.bytes).take (MAX_LINE_BYTES + 1) = upto LF s.bytes := List.take_of_length_le (by omega)
        rw [whole] at decoded rest none_ ⊢
        have behind : stream later.inner = ⟨past LF s.bytes,s.failure⟩ := by rw [rest,Stream.drop,drop_upto]
        exact .short (upto LF s.bytes) text later none_ fits decoded (by rw [behind]; exact Stream.items_of_line some_ (closed_of_fits fits closed))
      · have beyond : MAX_LINE_BYTES < (upto LF s.bytes).length := Nat.not_le.mp fits
        by_cases last : text.toList.getLast? = some '\n'
        · -- the newline is the byte at the limit
          have inside : LF ∈ (upto LF s.bytes).take (MAX_LINE_BYTES + 1) := List.mem_of_getLast? ((ends_with_newline decoded).mp last)
          have present : LF ∈ s.bytes := mem_upto.mp (List.mem_of_mem_take inside)
          rw [take_upto_of_mem inside] at rest
          have behind : stream later.inner = ⟨past LF s.bytes,s.failure⟩ := by rw [rest,Stream.drop,drop_upto]
          exact .long (upto LF s.bytes) text later beyond decoded last (by rw [behind]; exact Stream.items_of_mem present)
        · -- the line goes on behind the limit
          obtain ⟨absent,front,longer⟩ := cut_of_open beyond (mt (ends_with_newline decoded).mpr last)
          rw [front] at decoded rest ⊢
          refine .cut text later longer absent decoded last ?_
          rw [rest,List.length_take,Nat.min_eq_left longer]

/-- A line that goes on behind the limit, up to where skipping stops. -/
theorem cut_line {s : Stream} (beyond : MAX_LINE_BYTES < s.bytes.length) (absent : LF ∉ s.bytes.take (MAX_LINE_BYTES + 1))
    (closed : LF ∈ s.bytes.drop (MAX_LINE_BYTES + 1) ∨ s.failure = none) :
    MAX_LINE_BYTES < (upto LF s.bytes).length ∧ (upto LF s.bytes).take (MAX_LINE_BYTES + 1) = s.bytes.take (MAX_LINE_BYTES + 1) ∧
      s.items LF = some (upto LF s.bytes) :: Stream.items LF ⟨past LF (s.bytes.drop (MAX_LINE_BYTES + 1)),s.failure⟩ := by
  have some_ : s.bytes ≠ [] := by
    intro empty
    rw [empty] at beyond
    exact absurd beyond (Nat.not_lt_zero _)
  have front : (upto LF s.bytes).take (MAX_LINE_BYTES + 1) = s.bytes.take (MAX_LINE_BYTES + 1) := by
    rw [take_upto,upto_of_not_mem absent]
  have behind : past LF s.bytes = past LF (s.bytes.drop (MAX_LINE_BYTES + 1)) := by
    conv_lhs => rw [← List.take_append_drop (MAX_LINE_BYTES + 1) s.bytes]
    exact past_append absent
  refine ⟨?_,front,?_⟩
  · have length := congrArg List.length front
    rw [List.length_take,List.length_take] at length
    omega
  · rw [← behind]
    exact Stream.items_of_line some_ (closed.imp_left List.mem_of_mem_drop)

end reading

/-! ## The loop over the lines -/

section loop
variable (libraries : IngestLibraries) {ε : Type} ( add_facts_batch_partial : Submit ε) (batch_size : Nat) (default_scope : Option String)

def Ingesting.push (s : Ingesting ε) (request : AddFactRequest) : Ingesting ε :=
  let s := { s with batch := s.batch ++ [request], batch_lines := s.batch_lines ++ [s.line_no] }
  if batch_size ≤ s.batch.length then (flush_batch add_facts_batch_partial s).2 else s

def Ingesting.settle (s : Ingesting ε) : Outcome → Ingesting ε
  | .blank => s
  | .skipped => s.skip
  | .record request => s.push add_facts_batch_partial batch_size request

def Ingesting.item (s : Ingesting ε) (item : Item) : Ingesting ε :=
  Ingesting.settle add_facts_batch_partial batch_size { s with line_no := s.line_no + 1 } (outcome libraries default_scope item)

variable {libraries add_facts_batch_partial batch_size default_scope}

theorem take_line_settles (s : Ingesting ε) (text : String) :
    s.take_line libraries add_facts_batch_partial batch_size default_scope text =
      s.settle add_facts_batch_partial batch_size (outcome_of_text libraries default_scope text) := by
  unfold Ingesting.take_line outcome_of_text
  dsimp only
  by_cases blank : trim text = ""
  · rw [if_pos blank,if_pos blank]
    rfl
  · rw [if_neg blank,if_neg blank]
    cases libraries.from_str (trim text) with
    | none => rfl
    | some fact =>
      dsimp only
      cases validate_jsonl_fact libraries fact <;> rfl

theorem skip_item {s : Ingesting ε} {item : Item} (skipped : outcome libraries default_scope item = .skipped) :
    Ingesting.skip { s with line_no := s.line_no + 1 } = s.item libraries add_facts_batch_partial batch_size default_scope item := by
  rw [Ingesting.item,skipped]
  rfl

theorem outcome_long (libraries : IngestLibraries) (default_scope : Option String) {line : List UInt8} (beyond : MAX_LINE_BYTES < line.length) :
    outcome libraries default_scope (some line) = .skipped := by
  rw [outcome,if_pos beyond]

theorem outcome_unreadable {item : Item} (bad : readable item = false) : outcome libraries default_scope item = .skipped := by
  cases item with
  | none => rfl
  | some line =>
    rw [outcome]
    by_cases long : MAX_LINE_BYTES < line.length
    · rw [if_pos long]
    · have none_ : from_utf8 line = none := by
        have whole : line.take (MAX_LINE_BYTES + 1) = line := List.take_of_length_le (by omega)
        rw [readable,whole] at bad
        simpa using bad
      rw [if_neg long,none_]

/-- The loop over the reader is the loop over the lines that are read. -/
theorem ingest_loop_items {ρ : Type} [BufRead ρ] (reader : ρ) (s : Ingesting ε) :
    ingest_loop libraries add_facts_batch_partial batch_size default_scope reader s =
      (readItems ((stream reader).items LF)).foldl (Ingesting.item libraries add_facts_batch_partial batch_size default_scope) s := by
  fun_induction ingest_loop libraries add_facts_batch_partial batch_size default_scope reader s with
  | case1 reader s e text later got =>
    have shown := next_line reader
    rw [got] at shown
    cases shown with
    | stopped e text later item rest bad lines_ =>
      rw [lines_,readItems,if_neg (by rw [bad]; exact Bool.false_ne_true)]
      exact skip_item (outcome_unreadable bad)
  | case2 reader s text taken got =>
    have shown := next_line reader
    rw [got] at shown
    generalize none_ : 0 = n at shown
    cases shown with
    | ended text later nothing =>
      rw [nothing]
      rfl
    | short line text later some_ fits decoded lines_ => exact absurd none_.symm some_
    | long line text later beyond decoded closed lines_ =>
      rw [List.length_take] at none_
      omega
    | cut text later beyond absent decoded open_ rest =>
      rw [List.length_take] at none_
      omega
  | case3 reader s n text taken got some_ beyond last ih =>
    have shown := next_line reader
    rw [got] at shown
    cases shown with
    | ended text later nothing => exact absurd rfl some_
    | short line text later some_ fits decoded lines_ => exact absurd beyond (not_lt.mpr fits)
    | long line text later longer decoded closed lines_ =>
      have step := @skip_item libraries ε add_facts_batch_partial batch_size default_scope s _ (outcome_long libraries default_scope longer)
      rw [lines_,readItems,if_pos (by rw [readable,decoded]; rfl),List.foldl_cons,ih,step]
    | cut text later beyond absent decoded open_ rest => exact absurd last open_
  | case4 reader s n text taken got some_ beyond open_ e later skipped =>
    have shown := next_line reader
    have skips := @skips_until ρ _ LF taken.inner 0
    rw [got] at shown
    rw [skipped] at skips
    cases shown with
    | ended text later nothing => exact absurd rfl some_
    | short line text later some_ fits decoded lines_ => exact absurd beyond (not_lt.mpr fits)
    | long line text later beyond decoded closed lines_ => exact absurd closed open_
    | cut text taken beyond absent decoded open_ rest =>
      cases skips with
      | failed e later none_ failed =>
        rw [rest] at none_ failed
        have outside : LF ∉ (stream reader).bytes := by
          rw [← List.take_append_drop (MAX_LINE_BYTES + 1) (stream reader).bytes]
          exact fun member => (List.mem_append.mp member).elim absent none_
        rw [Stream.items_of_failure outside failed]
        rfl
  | case5 reader s n text taken got some_ beyond open_ m later skipped ih =>
    have shown := next_line reader
    have skips := @skips_until ρ _ LF taken.inner 0
    rw [got] at shown
    rw [skipped] at skips
    cases shown with
    | ended text later nothing => exact absurd rfl some_
    | short line text later some_ fits decoded lines_ => exact absurd beyond (not_lt.mpr fits)
    | long line text later beyond decoded closed lines_ => exact absurd closed open_
    | cut text taken longer absent decoded open_ rest =>
      cases skips with
      | line later closed behind =>
        rw [rest] at closed behind
        obtain ⟨long,front,lines_⟩ := cut_line longer absent closed
        have step := @skip_item libraries ε add_facts_batch_partial batch_size default_scope s _ (outcome_long libraries default_scope long)
        have behind' : stream later = ⟨past LF ((stream reader).bytes.drop (MAX_LINE_BYTES + 1)),(stream reader).failure⟩ := behind
        rw [lines_,readItems,if_pos (by rw [readable,front,decoded]; rfl),List.foldl_cons,ih,behind',step]
  | case6 reader s n text taken got some_ fits ih =>
    have shown := next_line reader
    rw [got] at shown
    cases shown with
    | ended text later nothing => exact absurd rfl some_
    | short line text later some_ fits decoded lines_ =>
      have whole : line.take (MAX_LINE_BYTES + 1) = line := List.take_of_length_le (by omega)
      have settled : outcome libraries default_scope (some line) = outcome_of_text libraries default_scope text := by
        rw [outcome,if_neg fits,decoded]
      rw [lines_,readItems,if_pos (by rw [readable,whole,decoded]; rfl),List.foldl_cons,ih,take_line_settles,Ingesting.item,settled]
    | long line text later beyond decoded closed lines_ =>
      rw [List.length_take] at fits
      omega
    | cut text later beyond absent decoded open_ rest =>
      rw [List.length_take] at fits
      omega

/-! ## What the steps keep -/

/-- The lines that were counted and the records that wait. -/
def Ingesting.total (s : Ingesting ε) : Nat := s.tally.ingested + s.tally.skipped + s.batch.length

/-- Every record that waits has its line. -/
def Ingesting.Aligned (s : Ingesting ε) : Prop := s.batch_lines.length = s.batch.length

/-- What a flush does: the batch goes to the engine, and its records are counted. -/
structure Flushed ( add_facts_batch_partial : Submit ε) (s t : Ingesting ε) : Prop where
  total : t.total = s.total
  aligned : t.Aligned
  batch : t.batch = []
  engine : t.engine = if s.batch = [] then s.engine else ( add_facts_batch_partial s.batch s.engine).2

theorem flush_flushed {s : Ingesting ε} (aligned : s.Aligned) : Flushed add_facts_batch_partial s (flush_batch add_facts_batch_partial s).2 := by
  unfold flush_batch
  by_cases empty : s.batch = []
  · rw [if_pos empty]
    exact ⟨rfl,aligned,empty,by rw [if_pos empty]⟩
  · rw [if_neg empty]
    dsimp only
    cases call : ( add_facts_batch_partial s.batch s.engine).1 with
    | error e =>
      refine ⟨?_,rfl,rfl,by rw [if_neg empty]⟩
      simp only [Ingesting.total,List.length_nil]
      omega
    | ok results =>
      refine ⟨?_,rfl,rfl,by rw [if_neg empty]⟩
      have some_ : ((s.batch_lines.zip results).countP fun r => isOk r.2) ≤ s.batch.length := by
        refine List.countP_le_length.trans ?_
        rw [List.length_zip,aligned]
        exact Nat.min_le_left ..
      simp only [Ingesting.total,List.length_nil]
      omega

/-- The batches in which records are submitted, behind those that wait. -/
def batches (batch_size : Nat) (pending : List AddFactRequest) : List AddFactRequest → List (List AddFactRequest)
  | [] => if pending = [] then [] else [pending]
  | request :: rest =>
    if batch_size ≤ (pending ++ [request]).length then (pending ++ [request]) :: batches batch_size [] rest
    else batches batch_size (pending ++ [request]) rest

theorem flatten_batches (batch_size : Nat) (pending requests : List AddFactRequest) :
    (batches batch_size pending requests).flatten = pending ++ requests := by
  induction requests generalizing pending with
  | nil =>
    rw [batches]
    by_cases empty : pending = []
    · rw [if_pos empty,empty]
      rfl
    · rw [if_neg empty,List.flatten_singleton,List.append_nil]
  | cons request rest ih =>
    rw [batches]
    by_cases full : batch_size ≤ (pending ++ [request]).length
    · rw [if_pos full,List.flatten_cons,ih,List.nil_append,List.append_assoc]
      rfl
    · rw [if_neg full,ih,List.append_assoc]
      rfl

/-- No batch is empty or larger than asked for. -/
theorem batches_sized (batch_size : Nat) {pending requests : List AddFactRequest} (room : pending.length < max batch_size 1) :
    ∀ call ∈ batches batch_size pending requests, call ≠ [] ∧ call.length ≤ max batch_size 1 := by
  induction requests generalizing pending with
  | nil =>
    intro call member
    rw [batches] at member
    by_cases empty : pending = []
    · rw [if_pos empty] at member
      cases member
    · rw [if_neg empty] at member
      obtain rfl := List.mem_singleton.mp member
      exact ⟨empty,le_of_lt room⟩
  | cons request rest ih =>
    intro call member
    rw [batches] at member
    by_cases full : batch_size ≤ (pending ++ [request]).length
    · rw [if_pos full] at member
      rcases List.mem_cons.mp member with rfl | later
      · refine ⟨List.append_ne_nil_of_right_ne_nil _ (List.cons_ne_nil _ _),?_⟩
        rw [List.length_append,List.length_singleton]
        exact room
      · have room' : ([] : List AddFactRequest).length < max batch_size 1 := Nat.lt_of_lt_of_le Nat.zero_lt_one (le_max_right ..)
        exact ih room' call later
    · rw [if_neg full] at member
      exact ih ((Nat.not_le.mp full).trans_le (le_max_left ..)) call member

/-- The engine after the calls. -/
def called ( add_facts_batch_partial : Submit ε) (engine : ε) (calls : List (List AddFactRequest)) : ε :=
  calls.foldl (fun engine call => ( add_facts_batch_partial call engine).2) engine

/-- What one line does to the counts and to the calls that follow. -/
structure Steps ( add_facts_batch_partial : Submit ε) (batch_size : Nat) (s t : Ingesting ε) (counted : Bool) (request : Option AddFactRequest) : Prop where
  aligned : t.Aligned
  total : t.total = s.total + if counted then 1 else 0
  calls : ∀ requests, called add_facts_batch_partial t.engine (batches batch_size t.batch requests) =
    called add_facts_batch_partial s.engine (batches batch_size s.batch (request.toList ++ requests))

theorem push_steps {s : Ingesting ε} (aligned : s.Aligned) (request : AddFactRequest) :
    Steps add_facts_batch_partial batch_size s (s.push add_facts_batch_partial batch_size request) true (some request) := by
  have pushed : Ingesting.Aligned { s with batch := s.batch ++ [request], batch_lines := s.batch_lines ++ [s.line_no] } := by
    simp only [Ingesting.Aligned,List.length_append,List.length_singleton]
    exact congrArg (· + 1) aligned
  have flushed : Flushed add_facts_batch_partial _ _ := flush_flushed pushed
  unfold Ingesting.push
  dsimp only
  by_cases full : batch_size ≤ (s.batch ++ [request]).length
  · rw [if_pos full]
    refine ⟨flushed.aligned,?_,fun requests => ?_⟩
    · rw [flushed.total]
      simp [Ingesting.total,Nat.add_assoc]
    · rw [flushed.engine,flushed.batch,if_neg (List.append_ne_nil_of_right_ne_nil _ (List.cons_ne_nil _ _))]
      rw [Option.toList_some,List.singleton_append,batches,if_pos full]
      rfl
  · rw [if_neg full]
    refine ⟨pushed,?_,fun requests => ?_⟩
    · simp [Ingesting.total,Nat.add_assoc]
    · rw [Option.toList_some,List.singleton_append,batches,if_neg full]

theorem item_steps {s : Ingesting ε} (aligned : s.Aligned) (item : Item) :
    Steps add_facts_batch_partial batch_size s (s.item libraries add_facts_batch_partial batch_size default_scope item)
      (counts libraries default_scope item) (record? libraries default_scope item) := by
  unfold Ingesting.item counts record?
  cases outcome libraries default_scope item with
  | blank => exact ⟨aligned,rfl,fun requests => rfl⟩
  | skipped =>
    refine ⟨aligned,?_,fun requests => rfl⟩
    simp only [Ingesting.settle,Ingesting.skip,Ingesting.total,if_true]
    omega
  | record request =>
    have numbered : Ingesting.Aligned { s with line_no := s.line_no + 1 } := aligned
    have pushed : Steps add_facts_batch_partial batch_size _ _ true (some request) := push_steps numbered request
    exact ⟨pushed.aligned,pushed.total,pushed.calls⟩

/-- The counts and the calls of a run over lines, with the flush at its end. -/
theorem items_settled (items : List Item) {s : Ingesting ε} (aligned : s.Aligned) {t : Ingesting ε}
    (run : t = (flush_batch add_facts_batch_partial
      (items.foldl (Ingesting.item libraries add_facts_batch_partial batch_size default_scope) s)).2) :
    t.total = s.total + items.countP (counts libraries default_scope) ∧ t.batch = [] ∧
      t.engine = called add_facts_batch_partial s.engine
        (batches batch_size s.batch (items.filterMap (record? libraries default_scope))) := by
  subst run
  induction items generalizing s with
  | nil =>
    have flushed : Flushed add_facts_batch_partial s _ := flush_flushed aligned
    refine ⟨flushed.total,flushed.batch,?_⟩
    rw [List.foldl_nil,flushed.engine,List.filterMap_nil,batches]
    by_cases empty : s.batch = []
    · rw [if_pos empty,if_pos empty]
      rfl
    · rw [if_neg empty,if_neg empty]
      rfl
  | cons item rest ih =>
    have step : Steps add_facts_batch_partial batch_size s (s.item libraries add_facts_batch_partial batch_size default_scope item) _ _ :=
      item_steps aligned item
    obtain ⟨total,empty,engine⟩ := ih step.aligned
    rw [List.foldl_cons,List.countP_cons]
    refine ⟨?_,empty,?_⟩
    · rw [total,step.total]
      omega
    · rw [engine,step.calls]
      cases request : record? libraries default_scope item with
      | none => rw [List.filterMap_cons_none request]; rfl
      | some r => rw [List.filterMap_cons_some request]; rfl

end loop

/-! ## The whole ingest -/

/-- The lines that a report accounts for. -/
def reported : Except NoFacts IngestSummary → Nat
  | .ok summary => summary.total_ingested + summary.total_skipped
  | .error e => e.skipped

theorem reported_tally (tally : BatchTally) : reported tally.report = tally.ingested + tally.skipped := by
  unfold BatchTally.report
  by_cases nothing : tally.ingested = 0 ∧ 0 < tally.skipped
  · rw [if_pos nothing,nothing.1,Nat.zero_add]
    rfl
  · rw [if_neg nothing]
    rfl

/-- Lines are readable, but for the ones behind which only blank lines follow. -/
def Followed (libraries : IngestLibraries) (default_scope : Option String) (items : List Item) : Prop :=
  ∀ front line rest, items = front ++ some line :: rest → from_utf8 (line.take (MAX_LINE_BYTES + 1)) = none →
    ∀ item ∈ rest, counts libraries default_scope item = false

section whole
variable (libraries : IngestLibraries) {ε : Type} ( add_facts_batch_partial : Submit ε) (batch_size : Nat) (default_scope : Option String)

/-- The engine gets the records of all lines, each once and in order, and the report counts every
    line that is not blank. -/
structure TakesIn (engine : ε) (items : List Item) (result : Except NoFacts IngestSummary × ε) : Prop where
  submitted : ∃ calls, calls.flatten = items.filterMap (record? libraries default_scope) ∧
    (∀ call ∈ calls, call ≠ [] ∧ call.length ≤ max batch_size 1) ∧ result.2 = called add_facts_batch_partial engine calls
  counted : reported result.1 = items.countP (counts libraries default_scope)

variable {libraries add_facts_batch_partial batch_size default_scope}

/-- The lines that are read are taken in. -/
theorem takes_in_read {ρ : Type} [Read ρ] (engine : ε) (reader : ρ) :
    TakesIn libraries add_facts_batch_partial batch_size default_scope engine (readItems ((stream reader).items LF))
      (ingest_from_reader libraries add_facts_batch_partial batch_size default_scope engine reader) := by
  have aligned : (⟨engine,⟨0,0,0⟩,[],[],0⟩ : Ingesting ε).Aligned := rfl
  have run : ingest_run libraries add_facts_batch_partial batch_size default_scope engine reader = _ :=
    congrArg (fun s => (flush_batch add_facts_batch_partial s).2) (ingest_loop_items (BufReader.new reader) ⟨engine,⟨0,0,0⟩,[],[],0⟩)
  obtain ⟨total,empty,calls⟩ := items_settled _ aligned run
  rw [BufReader.stream_new] at total calls
  constructor
  · refine ⟨_,?_,?_,calls⟩
    · rw [flatten_batches]
      rfl
    · exact batches_sized batch_size (Nat.lt_of_lt_of_le Nat.zero_lt_one (le_max_right ..))
  · have counted : reported _ = _ := reported_tally (ingest_run libraries add_facts_batch_partial batch_size default_scope engine reader).tally
    rw [Ingesting.total,empty,List.length_nil,Nat.add_zero] at total
    exact counted.trans (total.trans (Nat.zero_add _))

theorem counts_of_record {item : Item} {request : AddFactRequest} (record : record? libraries default_scope item = some request) :
    counts libraries default_scope item = true := by
  unfold record? at record
  unfold counts
  cases what : outcome libraries default_scope item with
  | blank => simp [what] at record
  | skipped => rfl
  | record request => rfl

theorem takes_in_of_blank {engine : ε} {items : List Item} {result : Except NoFacts IngestSummary × ε}
    (read : TakesIn libraries add_facts_batch_partial batch_size default_scope engine (readItems items) result) :
    TakesIn libraries add_facts_batch_partial batch_size default_scope engine items result ↔
      ∀ item ∈ unread items, counts libraries default_scope item = false := by
  have parts := read_append_unread items
  have counted : items.countP (counts libraries default_scope) =
      (readItems items).countP (counts libraries default_scope) + (unread items).countP (counts libraries default_scope) := by
    rw [← List.countP_append,parts]
  constructor
  · intro whole item member
    have same := read.counted.symm.trans whole.counted
    have none_ : (unread items).countP (counts libraries default_scope) = 0 := by omega
    simpa using List.countP_eq_zero.mp none_ item member
  · intro blank
    have none_ : (unread items).countP (counts libraries default_scope) = 0 :=
      List.countP_eq_zero.mpr fun item member => by rw [blank item member]; exact Bool.false_ne_true
    have records : items.filterMap (record? libraries default_scope) = (readItems items).filterMap (record? libraries default_scope) := by
      have silent : (unread items).filterMap (record? libraries default_scope) = [] := by
        refine List.filterMap_eq_nil_iff.mpr fun item member => ?_
        cases record : record? libraries default_scope item with
        | none => rfl
        | some request => exact absurd (counts_of_record record) (by rw [blank item member]; exact Bool.false_ne_true)
      conv_lhs => rw [← parts]
      rw [List.filterMap_append,silent,List.append_nil]
    obtain ⟨calls,flat,sized,engine_⟩ := read.submitted
    exact ⟨⟨calls,flat.trans records.symm,sized,engine_⟩,by rw [read.counted,counted,none_,Nat.add_zero]⟩

/-- Behind a failure of the source is nothing. -/
theorem rest_of_failure {s : Stream} {front rest : List Item} (parts : s.items LF = front ++ none :: rest) : rest = [] := by
  unfold Stream.items at parts
  cases failed : s.failure with
  | none =>
    rw [failed] at parts
    have member : (none : Item) ∈ front ++ none :: rest := List.mem_append_right front List.mem_cons_self
    rw [← parts] at member
    obtain ⟨line,_,some_⟩ := List.mem_map.mp member
    cases some_
  | some e =>
    rw [failed] at parts
    rcases List.eq_nil_or_concat' rest with empty | ⟨others,item,same⟩
    · exact empty
    · rw [same,← List.cons_append,← List.append_assoc] at parts
      have member : (none : Item) ∈ front ++ none :: others := List.mem_append_right front List.mem_cons_self
      rw [← List.append_inj_left' parts rfl] at member
      obtain ⟨line,_,some_⟩ := List.mem_map.mp member
      cases some_

/-- Nothing that counts is left when only blank lines follow a line that is not readable. -/
theorem unread_iff {items : List Item} (last : ∀ front rest, items = front ++ none :: rest → rest = []) :
    (∀ item ∈ unread items, counts libraries default_scope item = false) ↔ Followed libraries default_scope items := by
  induction items with
  | nil =>
    refine ⟨fun _ front line rest parts => ?_,fun _ item member => ?_⟩
    · exact absurd parts.symm (List.append_ne_nil_of_right_ne_nil _ (List.cons_ne_nil _ _))
    · exact absurd member List.not_mem_nil
  | cons first others ih =>
    have tail := ih fun front rest parts => last (first :: front) rest (by rw [parts]; rfl)
    rw [unread]
    by_cases text : readable first = true
    · rw [if_pos text,tail]
      constructor
      · intro followed front line rest parts bad
        cases front with
        | nil =>
          obtain ⟨rfl,rfl⟩ := List.cons.inj parts
          rw [readable,bad] at text
          cases text
        | cons item front => exact followed front line rest (List.cons.inj parts).2 bad
      · exact fun followed front line rest parts bad => followed (first :: front) line rest (by rw [parts]; rfl) bad
    · rw [if_neg text]
      constructor
      · intro blank front line rest parts bad item member
        cases front with
        | nil =>
          obtain ⟨_,rfl⟩ := List.cons.inj parts
          exact blank item member
        | cons head front =>
          obtain ⟨_,rfl⟩ := List.cons.inj parts
          exact blank item (List.mem_append_right _ (List.mem_cons_of_mem _ member))
      · intro followed item member
        cases first with
        | none =>
          rw [last [] others rfl] at member
          cases member
        | some line => exact followed [] line others rfl (by simpa [readable] using text) item member

/-- An ingest takes all lines in exactly if only blank lines follow each line that is not text
    within the limit. -/
theorem takes_in_exactly {ρ : Type} [Read ρ] (engine : ε) (reader : ρ) :
    TakesIn libraries add_facts_batch_partial batch_size default_scope engine ((stream reader).items LF)
        (ingest_from_reader libraries add_facts_batch_partial batch_size default_scope engine reader) ↔
      Followed libraries default_scope ((stream reader).items LF) := by
  rw [takes_in_of_blank (takes_in_read engine reader)]
  exact unread_iff fun front rest parts => rest_of_failure parts

end whole

/-! ## A bad byte -/

def Sample.record : JsonlFact := ⟨"a",.Semantic,none,none,none,none,none,none,none,none,none⟩

/-- Every line that is not blank is a record. -/
def Sample.libraries : IngestLibraries where
  from_str _ := some Sample.record
  float_text _ := "0.5"
  time_text _ := ""

/-- A line with the byte FF, which no text has, and a record behind it. -/
def Sample.badByte : Pieces where
  pieces := [[255,10,123,125,10]]
  failure := none
  filled := by decide

/-- The record behind the bad byte is neither submitted nor counted. -/
theorem bad_byte_ends_ingest :
    ¬ TakesIn Sample.libraries (fun batch calls => (.ok (batch.map fun _ => .ok 1),calls ++ [batch])) 100 none [] ((stream Sample.badByte).items LF)
      (ingest_from_reader Sample.libraries (fun batch calls => (.ok (batch.map fun _ => .ok 1),calls ++ [batch])) 100 none [] Sample.badByte) := by
  rw [takes_in_of_blank (takes_in_read [] Sample.badByte)]
  intro blank
  have unread_ : (some [123,125,10] : Item) ∈ unread ((stream Sample.badByte).items LF) := by decide +kernel
  have counted : counts Sample.libraries none (some [123,125,10]) = true := by decide +kernel
  rw [blank _ unread_] at counted
  cases counted

end MemoryEngine.BatchIngest
