import MemoryEngine.Readers
import MemoryEngine.Scopes
import MemoryEngine.SessionTurns
import Mathlib.Data.List.TakeWhile

/-! Reading a session file. Lines are read under a limit of bytes a line, a limit of bytes in all
and a limit of entries; lines that cannot be used are counted and passed over. -/

namespace MemoryEngine.Session
open Readers Readers.Source

def MAX_JSONL_LINE_BYTES : Nat := 8 * 1024 * 1024

def U64_MAX : Nat := 2 ^ 64 - 1

inductive BoundedLine where
  | Line (bytes : List UInt8)
  | Oversized
  | Eof

section bounded
variable {ρ : Type} [BufRead ρ]

/-- The rest of a line that is too long is dropped, with its newline. -/
def drain (reader : ρ) : Except ErrorKind Unit × ρ :=
  match _got : BufRead.fill_buf reader with
  | (.error e,later) => (.error e,later)
  | (.ok chunk,later) =>
    if chunk = [] then (.ok (),later) else
      match chunk.idxOf? LF with
      | some pos => (.ok (),BufRead.consume later (pos + 1))
      | none => drain (BufRead.consume later chunk.length)
termination_by (stream reader).bytes.length
decreasing_by
  have shorter := consume_shorter (r := reader) (by rw [_got]) (Nat.le_refl chunk.length)
  have some_ : chunk.length ≠ 0 := fun zero => ‹¬chunk = []› (List.length_eq_zero_iff.mp zero)
  rw [_got] at shorter
  dsimp only at shorter
  omega

/-- A line of at most `cap` bytes without its newline. One byte more is read, to see that a line
    is longer. -/
def read_bounded_line (reader : ρ) (cap : Nat) : Except ErrorKind BoundedLine × ρ :=
  match read_until LF (⟨reader,min (cap + 1) U64_MAX⟩ : Take ρ) [] 0 with
  | (.error e,_,taken) => (.error e,taken.inner)
  | (.ok n,buf,taken) =>
    if n = 0 then (.ok .Eof,taken.inner)
    else if buf.getLast? = some LF then (.ok (.Line buf.dropLast),taken.inner)
    else if buf.length ≤ cap then (.ok (.Line buf),taken.inner)
    else match drain taken.inner with
      | (.ok _,later) => (.ok .Oversized,later)
      | (.error e,later) => (.error e,later)

/-- A line without its newline. -/
def content (line : List UInt8) : List UInt8 := line.takeWhile fun b => b != LF

/-- Draining goes past the next newline, or to the end. -/
inductive Drains (s : Stream) : Except ErrorKind Unit × ρ → Prop where
  | done (later : ρ) (closed : LF ∈ s.bytes ∨ s.failure = none) (rest : stream later = ⟨past LF s.bytes,s.failure⟩) : Drains s (.ok (),later)
  | failed (e : ErrorKind) (later : ρ) (absent : LF ∉ s.bytes) (failed : s.failure = some e) : Drains s (.error e,later)

theorem Drains.more {s : Stream} {chunk : List UInt8} {result : Except ErrorKind Unit × ρ} (absent : LF ∉ chunk) (drains : Drains s result) :
    Drains (s.after chunk) result := by
  cases drains with
  | done later closed rest =>
    have second : past LF (s.after chunk).bytes = past LF s.bytes := past_append absent
    exact .done later (closed.imp_left (List.mem_append_right _)) (by rw [second,rest]; rfl)
  | failed e later none_ failed => exact .failed e later (fun member => (List.mem_append.mp member).elim absent none_) failed

theorem drains (reader : ρ) : Drains (stream reader) (drain reader) := by
  fun_induction drain reader with
  | case1 reader e later got =>
    have shown := filled LF reader
    rw [got] at shown
    cases shown with
    | failed e later here =>
      rw [here]
      exact .failed e later List.not_mem_nil rfl
  | case2 reader later got =>
    have shown := filled LF reader
    rw [got] at shown
    cases shown with
    | found chunk later i at_ present front length rest => cases at_
    | ended later here rest =>
      rw [here]
      exact .done later (Or.inr rfl) ((BufRead.consume_zero later).symm.trans rest)
    | more chunk later absent some_ rest => exact absurd rfl some_
  | case3 reader chunk later got some_ pos at_ =>
    have shown := filled LF reader
    rw [got] at shown
    cases shown with
    | found chunk later i at' present front length rest =>
      obtain rfl : pos = i := Option.some.inj (at_.symm.trans at')
      exact .done _ (Or.inl present) rest
    | ended later here rest => exact absurd rfl some_
    | more chunk later absent some_ rest => exact absurd (cut_of_idxOf at_).1 absent
  | case4 reader chunk later got some_ at_ ih =>
    have shown := filled LF reader
    rw [got] at shown
    cases shown with
    | found chunk later i at' present front length rest =>
      rw [at_] at at'
      cases at'
    | ended later here rest => exact absurd rfl some_
    | more chunk later absent nonempty rest =>
      rw [rest]
      exact ih.more absent

/-- What one call reads: the next line, whether it fits or not, the end, or the error. -/
inductive Bounded (cap : Nat) (s : Stream) : Except ErrorKind BoundedLine × ρ → Prop where
  | eof (later : ρ) (here : s = .ended) : Bounded cap s (.ok .Eof,later)
  | line (later : ρ) (some_ : s.bytes ≠ []) (closed : LF ∈ s.bytes ∨ s.failure = none) (fits : (content (upto LF s.bytes)).length ≤ cap)
      (rest : stream later = ⟨past LF s.bytes,s.failure⟩) : Bounded cap s (.ok (.Line (content (upto LF s.bytes))),later)
  | oversized (later : ρ) (some_ : s.bytes ≠ []) (closed : LF ∈ s.bytes ∨ s.failure = none) (long : cap < (content (upto LF s.bytes)).length)
      (rest : stream later = ⟨past LF s.bytes,s.failure⟩) : Bounded cap s (.ok .Oversized,later)
  | failed (e : ErrorKind) (later : ρ) (absent : LF ∉ s.bytes) (failed : s.failure = some e) : Bounded cap s (.error e,later)

/-- A stream within the counters of the machine. -/
structure Countable (s : Stream) : Prop where
  short : s.bytes.length ≤ U64_MAX
  whole : s.bytes.length = U64_MAX → s.failure = none

theorem content_closed {front : List UInt8} (absent : LF ∉ front) : content (front ++ [LF]) = front := by
  have all : ∀ b ∈ front, (b != LF) = true := fun b member => bne_iff_ne.mpr fun same => absent (same ▸ member)
  rw [content,List.takeWhile_append_of_pos all]
  simp

theorem content_open {line : List UInt8} (absent : LF ∉ line) : content line = line :=
  List.takeWhile_eq_self_iff.mpr fun _ member => bne_iff_ne.mpr fun same => absent (same ▸ member)

/-- The limit is one byte beyond the longest line, or beyond all bytes that there can be. -/
theorem within_limit {s : Stream} {cap : Nat} (countable : Countable s) (closed : min (cap + 1) U64_MAX ≤ s.bytes.length ∨ s.failure = none)
    (fits : (s.bytes.take (min (cap + 1) U64_MAX)).length ≤ cap) :
    s.bytes.take (min (cap + 1) U64_MAX) = s.bytes ∧ s.failure = none := by
  have short := countable.short
  rw [List.length_take] at fits
  refine ⟨List.take_of_length_le (by omega),?_⟩
  rcases closed with beyond | whole
  · exact countable.whole (by omega)
  · exact whole

theorem length_content_of_mem {line : List UInt8} (present : LF ∈ line) : (content (upto LF line)).length + 1 = (upto LF line).length := by
  obtain ⟨front,absent,same⟩ := upto_of_mem present
  rw [same,content_closed absent,List.length_append]
  rfl

/-- A newline below the limit closes the line there. -/
theorem line_within {l : List UInt8} {limit : Nat} (present : LF ∈ l.take limit) :
    upto LF (l.take limit) = upto LF l ∧ (upto LF l).getLast? = some LF ∧ (upto LF l).dropLast = content (upto LF l) ∧
      (content (upto LF l)).length < limit := by
  have first : upto LF (l.take limit) = upto LF l := by
    conv_rhs => rw [← List.take_append_drop limit l]
    exact (upto_append_of_mem present _).symm
  have member : LF ∈ l := List.mem_of_mem_take present
  have one := length_content_of_mem member
  have short := length_upto_le LF (l.take limit)
  rw [first,List.length_take] at short
  obtain ⟨front,absent,same⟩ := upto_of_mem member
  refine ⟨first,last_of_upto member,?_,by omega⟩
  rw [same,content_closed absent,List.dropLast_concat]

/-- A line whose front without a newline is beyond the cap is too long. -/
theorem length_content_beyond {line : List UInt8} {limit cap : Nat} (absent : LF ∉ line.take limit) (beyond : cap < (line.take limit).length) :
    cap < (content (upto LF line)).length := by
  by_cases present : LF ∈ line
  · have one := length_content_of_mem present
    have parts : upto LF line = line.take limit ++ upto LF (line.drop limit) := by
      rw [← upto_append absent,List.take_append_drop]
    have later : LF ∈ line.drop limit := by
      rw [← List.take_append_drop limit line] at present
      exact (List.mem_append.mp present).resolve_left absent
    have some_ : 0 < (upto LF (line.drop limit)).length := List.length_pos_of_mem (mem_upto.mpr later)
    rw [parts,List.length_append] at one
    rw [parts]
    omega
  · rw [upto_of_not_mem present,content_open present]
    rw [List.length_take] at beyond
    omega

theorem read_bounded (reader : ρ) (cap : Nat) (countable : Countable (stream reader)) :
    Bounded cap (stream reader) (read_bounded_line reader cap) := by
  have reads := @reads_within ρ _ LF reader (min (cap + 1) U64_MAX)
  have positive : 0 < min (cap + 1) U64_MAX := by
    have some_ : 0 < U64_MAX := by decide
    omega
  unfold read_bounded_line
  generalize read_until LF (⟨reader,min (cap + 1) U64_MAX⟩ : Take ρ) [] 0 = result at reads
  generalize limit_ : min (cap + 1) U64_MAX = limit at reads positive
  generalize stream reader = s at countable reads
  have parts : s.bytes = s.bytes.take limit ++ s.bytes.drop limit := (List.take_append_drop limit s.bytes).symm
  cases reads with
  | failed e part later absent short failed => exact .failed e later.inner absent failed
  | line later closed rest =>
    dsimp only
    by_cases none_ : (upto LF (s.bytes.take limit)).length = 0
    · -- nothing is read at the end only
      have empty : s.bytes.take limit = [] := by
        by_contra some_
        exact upto_ne_nil some_ (List.length_eq_zero_iff.mp none_)
      have no_bytes : s.bytes = [] := (List.take_eq_nil_iff.mp empty).resolve_left (by omega)
      rw [if_pos none_]
      exact .eof later.inner (Stream.ended_of_closed positive no_bytes closed)
    · rw [if_neg none_]
      have some_ : s.bytes ≠ [] := by
        rintro empty
        rw [empty,List.take_nil] at none_
        exact none_ rfl
      by_cases present : LF ∈ s.bytes.take limit
      · -- the newline is within the limit
        obtain ⟨first,ends,stripped,fits⟩ := line_within present
        rw [first] at rest none_ ⊢
        rw [if_pos ends,stripped]
        exact .line later.inner some_ (Or.inl (List.mem_of_mem_take present)) (by omega) (by rw [rest,Stream.drop,drop_upto])
      · have all : upto LF (s.bytes.take limit) = s.bytes.take limit := upto_of_not_mem present
        rw [all] at rest none_ ⊢
        have open_ : (s.bytes.take limit).getLast? ≠ some LF := fun last => present (List.mem_of_getLast? last)
        rw [if_neg open_]
        by_cases fits : (s.bytes.take limit).length ≤ cap
        · -- all that is left, without a newline
          subst limit_
          obtain ⟨whole,ended⟩ := within_limit countable (closed.resolve_left present) fits
          rw [whole] at present fits rest ⊢
          have line_ : content (upto LF s.bytes) = s.bytes := by rw [upto_of_not_mem present,content_open present]
          rw [if_pos fits]
          have read : Bounded cap s (.ok (.Line (content (upto LF s.bytes))),later.inner) :=
            .line later.inner some_ (Or.inr ended) (by rw [line_]; exact fits)
              (by rw [rest,past_of_not_mem present,Stream.drop,List.drop_length])
          rwa [line_] at read
        · -- one byte more than the line may have
          rw [if_neg fits]
          have beyond := Nat.not_le.mp fits
          have reached : (s.bytes.take limit).length = limit := by
            rw [List.length_take] at beyond ⊢
            omega
          have second : past LF s.bytes = past LF (s.bytes.drop limit) := by
            conv_lhs => rw [parts]
            exact past_append present
          have drained := drains later.inner
          rw [rest,reached] at drained
          generalize drain later.inner = result at drained
          cases drained with
          | done last closed rest =>
            exact .oversized last some_ (closed.imp_left List.mem_of_mem_drop) (length_content_beyond present beyond) (by rw [rest,second]; rfl)
          | failed e last absent failed =>
            refine .failed e last (fun member => ?_) failed
            rw [parts] at member
            exact (List.mem_append.mp member).elim present absent

theorem length_past_le (l : List UInt8) : (past LF l).length ≤ l.length := by
  rw [← drop_upto,List.length_drop]
  exact Nat.sub_le ..

/-- Whatever is read before the end makes the stream shorter. -/
theorem read_bounded_shorter {reader later : ρ} {cap : Nat} {line : BoundedLine} (got : read_bounded_line reader cap = (.ok line,later))
    (more : line ≠ .Eof) : (stream later).bytes.length < (stream reader).bytes.length := by
  have reads := @reads_within ρ _ LF reader (min (cap + 1) U64_MAX)
  unfold read_bounded_line at got
  generalize read_until LF (⟨reader,min (cap + 1) U64_MAX⟩ : Take ρ) [] 0 = result at reads got
  cases reads with
  | failed e part taken absent short failed => cases got
  | line taken closed rest =>
    dsimp only at got
    by_cases none_ : (upto LF ((stream reader).bytes.take (min (cap + 1) U64_MAX))).length = 0
    · rw [if_pos none_] at got
      cases got
      exact absurd rfl more
    · rw [if_neg none_] at got
      have within := length_upto_le LF ((stream reader).bytes.take (min (cap + 1) U64_MAX))
      rw [List.length_take] at within
      have behind := congrArg (fun s => s.bytes.length) rest
      simp only [Stream.drop,List.length_drop] at behind
      have moved : (stream taken.inner).bytes.length < (stream reader).bytes.length := by omega
      split at got
      · cases got
        exact moved
      · split at got
        · cases got
          exact moved
        · have drained := drains taken.inner
          generalize drain taken.inner = result at drained got
          cases drained with
          | done last closed rest =>
            cases got
            rw [rest]
            exact (length_past_le _).trans_lt moved
          | failed e last absent failed => cases got

end bounded

/-! ## The session -/

structure SessionLog where
  entries : List SessionEntry
  malformed : Nat

section session
variable (decode : String → Option SessionEntry)

/-- A line that was read: an entry, a blank line or a malformed one. -/
def SessionLog.take_line (log : SessionLog) (bytes : List UInt8) : SessionLog :=
  match from_utf8 bytes with
  | none => { log with malformed := log.malformed + 1 }
  | some line =>
    if trim line = "" then log else
      match decode (trim line) with
      | some entry => { log with entries := log.entries ++ [entry] }
      | none => { log with malformed := log.malformed + 1 }

/-- Reading line after line, until the end, an error, or as many entries as are wanted. -/
def session_loop {ρ : Type} [BufRead ρ] (cap max_entries : Nat) (reader : ρ) (log : SessionLog) : SessionLog :=
  if 0 < max_entries ∧ max_entries ≤ log.entries.length then log else
    match _got : read_bounded_line reader cap with
    | (.ok .Eof,_) => log
    | (.ok .Oversized,later) => session_loop cap max_entries later { log with malformed := log.malformed + 1 }
    | (.ok (.Line bytes),later) => session_loop cap max_entries later (log.take_line decode bytes)
    | (.error _,_) => { log with malformed := log.malformed + 1 }
termination_by (stream reader).bytes.length
decreasing_by
  · exact read_bounded_shorter _got fun same => by cases same
  · exact read_bounded_shorter _got fun same => by cases same

def parse_session_file_capped {ρ : Type} [BufRead ρ] (reader : ρ) (cap max_entries : Nat) : SessionLog :=
  session_loop decode cap max_entries reader ⟨[],0⟩

/-- Zero stands for no limit. -/
def stream_cap (max_session_bytes : UInt64) : Nat := if max_session_bytes = 0 then U64_MAX else max_session_bytes.toNat

def session_reader {ρ : Type} (reader : ρ) (max_session_bytes : UInt64) : BufReader (Take ρ) :=
  .new ⟨reader,stream_cap max_session_bytes⟩

def parse_session_file {ρ : Type} [Read ρ] (reader : ρ) (max_session_bytes : UInt64) (max_entries : Nat) : SessionLog :=
  parse_session_file_capped decode (session_reader reader max_session_bytes) MAX_JSONL_LINE_BYTES max_entries

/-! ### The lines of the stream -/

/-- What becomes of a line. -/
inductive Verdict where
  | entry (e : SessionEntry)
  | malformed
  | blank

def Verdict.entry? : Verdict → Option SessionEntry
  | .entry e => some e
  | _ => none

def Verdict.isMalformed : Verdict → Bool
  | .malformed => true
  | _ => false

@[simp] theorem entries_of_entry (e : SessionEntry) (rest : List Verdict) :
    (Verdict.entry e :: rest).filterMap Verdict.entry? = e :: rest.filterMap Verdict.entry? := rfl

@[simp] theorem entries_of_malformed (rest : List Verdict) : (Verdict.malformed :: rest).filterMap Verdict.entry? = rest.filterMap Verdict.entry? := rfl

@[simp] theorem entries_of_blank (rest : List Verdict) : (Verdict.blank :: rest).filterMap Verdict.entry? = rest.filterMap Verdict.entry? := rfl

/-- A line, or the one behind which the stream broke off. -/
def judge (cap : Nat) : Option (List UInt8) → Verdict
  | none => .malformed
  | some line =>
    if cap < (content line).length then .malformed else
      match from_utf8 (content line) with
      | none => .malformed
      | some text =>
        if trim text = "" then .blank else
          match decode (trim text) with
          | some e => .entry e
          | none => .malformed

/-- The verdicts up to the last entry that is wanted. -/
def upToEntries : Nat → List Verdict → List Verdict
  | 0,_ => []
  | _ + 1,[] => []
  | wanted + 1,.entry e :: rest => .entry e :: upToEntries wanted rest
  | wanted + 1,verdict :: rest => verdict :: upToEntries (wanted + 1) rest

theorem upToEntries_zero (verdicts : List Verdict) : upToEntries 0 verdicts = [] := by
  cases verdicts <;> rfl

def considered (max_entries : Nat) (verdicts : List Verdict) : List Verdict :=
  if max_entries = 0 then verdicts else upToEntries max_entries verdicts

def SessionLog.add (log : SessionLog) : Verdict → SessionLog
  | .entry e => { log with entries := log.entries ++ [e] }
  | .malformed => { log with malformed := log.malformed + 1 }
  | .blank => log

def SessionLog.addAll (log : SessionLog) (verdicts : List Verdict) : SessionLog :=
  ⟨log.entries ++ verdicts.filterMap Verdict.entry?,log.malformed + verdicts.countP Verdict.isMalformed⟩

theorem SessionLog.addAll_cons (log : SessionLog) (verdict : Verdict) (rest : List Verdict) :
    log.addAll (verdict :: rest) = (log.add verdict).addAll rest := by
  unfold addAll
  rw [List.countP_cons]
  cases verdict with
  | entry e =>
    rw [entries_of_entry,add,List.append_assoc]
    rfl
  | malformed =>
    rw [entries_of_malformed,add,Nat.add_comm (rest.countP Verdict.isMalformed),← Nat.add_assoc]
    rfl
  | blank =>
    rw [entries_of_blank,add]
    rfl

variable {decode}

theorem take_line_judged {cap : Nat} {line : List UInt8} (fits : (content line).length ≤ cap) (log : SessionLog) :
    log.take_line decode (content line) = log.add (judge decode cap (some line)) := by
  rw [judge,if_neg (not_lt.mpr fits),SessionLog.take_line]
  cases from_utf8 (content line) with
  | none => rfl
  | some text =>
    dsimp only
    by_cases blank : trim text = ""
    · rw [if_pos blank,if_pos blank]
      rfl
    · rw [if_neg blank,if_neg blank]
      cases decode (trim text) <;> rfl

/-- The verdicts that are still considered, with the entries that are there. -/
def remaining (max_entries : Nat) (log : SessionLog) (verdicts : List Verdict) : List Verdict :=
  if max_entries = 0 then verdicts else upToEntries (max_entries - log.entries.length) verdicts

theorem session_step {max_entries : Nat} {log : SessionLog} (open_ : ¬ (0 < max_entries ∧ max_entries ≤ log.entries.length))
    (verdict : Verdict) (rest : List Verdict) :
    log.addAll (remaining max_entries log (verdict :: rest)) =
      (log.add verdict).addAll (remaining max_entries (log.add verdict) rest) := by
  unfold remaining
  by_cases unbounded : max_entries = 0
  · rw [if_pos unbounded,if_pos unbounded,SessionLog.addAll_cons]
  · rw [if_neg unbounded,if_neg unbounded]
    obtain ⟨wanted,left⟩ : ∃ wanted, max_entries - log.entries.length = wanted + 1 := ⟨max_entries - log.entries.length - 1,by omega⟩
    rw [left]
    cases verdict with
    | entry e =>
      have fewer : max_entries - (log.add (.entry e)).entries.length = wanted := by
        simp only [SessionLog.add,List.length_append,List.length_singleton]
        omega
      rw [upToEntries,SessionLog.addAll_cons,fewer]
    | malformed =>
      rw [upToEntries,SessionLog.addAll_cons,SessionLog.add,left]
      intro e same
      cases same
    | blank =>
      rw [upToEntries,SessionLog.addAll_cons,SessionLog.add,left]
      intro e same
      cases same

theorem remaining_nil (max_entries : Nat) (log : SessionLog) : log.addAll (remaining max_entries log []) = log := by
  have none_ : remaining max_entries log [] = [] := by
    unfold remaining
    cases max_entries - log.entries.length <;> split <;> rfl
  rw [none_]
  simp [SessionLog.addAll]

theorem Countable.past {s : Stream} (countable : Countable s) : Countable ⟨past LF s.bytes,s.failure⟩ := by
  have within := length_past_le s.bytes
  have short := countable.short
  exact ⟨within.trans short,fun full => countable.whole (le_antisymm short (full ▸ within))⟩

/-- The loop over the reader adds the verdicts on the lines of its stream. -/
theorem session_loop_lines {ρ : Type} [BufRead ρ] (cap max_entries : Nat) (reader : ρ) (log : SessionLog) (countable : Countable (stream reader)) :
    session_loop decode cap max_entries reader log =
      log.addAll (remaining max_entries log (((stream reader).items LF).map (judge decode cap))) := by
  fun_induction session_loop decode cap max_entries reader log with
  | case1 reader log full =>
    have none_ : ∀ verdicts, remaining max_entries log verdicts = [] := by
      intro verdicts
      rw [remaining,if_neg (by omega),Nat.sub_eq_zero_of_le full.2,upToEntries_zero]
    rw [none_]
    simp [SessionLog.addAll]
  | case2 reader log open_ later got =>
    have shown := read_bounded reader cap countable
    rw [got] at shown
    cases shown with
    | eof later here => rw [here,Stream.items_ended,List.map_nil,remaining_nil]
  | case3 reader log open_ later got ih =>
    have shown := read_bounded reader cap countable
    rw [got] at shown
    cases shown with
    | oversized later some_ closed long rest =>
      rw [rest] at ih
      have verdict : judge decode cap (some (upto LF (stream reader).bytes)) = .malformed := by rw [judge,if_pos long]
      rw [Stream.items_of_line some_ closed,List.map_cons,session_step open_,verdict]
      exact ih countable.past
  | case4 reader log open_ bytes later got ih =>
    have shown := read_bounded reader cap countable
    rw [got] at shown
    cases shown with
    | line later some_ closed fits rest =>
      rw [rest] at ih
      rw [Stream.items_of_line some_ closed,List.map_cons,session_step open_,← take_line_judged fits]
      exact ih countable.past
  | case5 reader log open_ e later got =>
    have shown := read_bounded reader cap countable
    rw [got] at shown
    cases shown with
    | failed e later absent failed =>
      rw [Stream.items_of_failure absent failed,List.map_cons,List.map_nil,session_step open_,remaining_nil]
      rfl

theorem stream_cap_le (max_session_bytes : UInt64) : stream_cap max_session_bytes ≤ U64_MAX := by
  unfold stream_cap
  split
  · exact le_refl _
  · have below := max_session_bytes.toNat_lt
    exact Nat.le_sub_one_of_lt below

theorem countable_take (s : Stream) {limit : Nat} (bounded : limit ≤ U64_MAX) : Countable (s.take limit) := by
  constructor
  · simp only [Stream.take,List.length_take]
    omega
  · intro full
    simp only [Stream.take,List.length_take] at full ⊢
    rw [if_pos (by omega)]

/-- With a limit on the entries, they are the first ones of all lines. -/
theorem entries_considered (max_entries : Nat) (verdicts : List Verdict) :
    (considered max_entries verdicts).filterMap Verdict.entry? =
      if max_entries = 0 then verdicts.filterMap Verdict.entry? else (verdicts.filterMap Verdict.entry?).take max_entries := by
  unfold considered
  by_cases unbounded : max_entries = 0
  · rw [if_pos unbounded,if_pos unbounded]
  · rw [if_neg unbounded,if_neg unbounded]
    clear unbounded
    fun_induction upToEntries max_entries verdicts with
    | case1 => rfl
    | case2 => rfl
    | case3 wanted e rest ih => rw [entries_of_entry,entries_of_entry,List.take_succ_cons,ih]
    | case4 wanted verdict rest other ih =>
      have none_ : verdict.entry? = none := by
        cases verdict with
        | entry e => exact absurd rfl (other e)
        | malformed => rfl
        | blank => rfl
      rw [List.filterMap_cons_none none_,List.filterMap_cons_none none_,ih]

/-- The verdicts on the lines of a stream, or of as much of it as is read. -/
def line_verdicts (decode : String → Option SessionEntry) (s : Stream) (cap : Nat) (max_session_bytes : UInt64) : List Verdict :=
  ((s.take (stream_cap max_session_bytes)).items LF).map (judge decode cap)

/-- The first entries of the lines, and the malformed lines up to the last of them. -/
def session_lines (decode : String → Option SessionEntry) (s : Stream) (cap : Nat) (max_session_bytes : UInt64) (max_entries : Nat) : SessionLog where
  entries :=
    let entries := (line_verdicts decode s cap max_session_bytes).filterMap Verdict.entry?
    if max_entries = 0 then entries else entries.take max_entries
  malformed := (considered max_entries (line_verdicts decode s cap max_session_bytes)).countP Verdict.isMalformed

theorem session_capped {ρ : Type} [Read ρ] (reader : ρ) (cap : Nat) (max_session_bytes : UInt64) (max_entries : Nat) :
    parse_session_file_capped decode (session_reader reader max_session_bytes) cap max_entries =
      session_lines decode (stream reader) cap max_session_bytes max_entries := by
  have lines_ := @session_loop_lines decode (BufReader (Take ρ)) _ cap max_entries (session_reader reader max_session_bytes) ⟨[],0⟩
    (countable_take (stream reader) (stream_cap_le max_session_bytes))
  rw [parse_session_file_capped,lines_,session_lines,← entries_considered]
  simp only [SessionLog.addAll,List.nil_append,Nat.zero_add]
  rfl

/-- However a reader hands its bytes out, the entries are those of the lines of its stream that
    are within the cap, up to the limits, and every other line that is not blank is counted. -/
theorem session_file_lines (decode : String → Option SessionEntry) {ρ : Type} [Read ρ] (reader : ρ) (max_session_bytes : UInt64)
    (max_entries : Nat) :
    (∀ cap, parse_session_file_capped decode (session_reader reader max_session_bytes) cap max_entries =
        session_lines decode (stream reader) cap max_session_bytes max_entries) ∧
      parse_session_file decode reader max_session_bytes max_entries =
        session_lines decode (stream reader) MAX_JSONL_LINE_BYTES max_session_bytes max_entries :=
  ⟨fun cap => session_capped reader cap max_session_bytes max_entries,
    session_capped reader MAX_JSONL_LINE_BYTES max_session_bytes max_entries⟩

end session
end MemoryEngine.Session
