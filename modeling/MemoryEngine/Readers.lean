import Mathlib.Data.List.Basic
import Mathlib.Data.List.Induction

/-! Readers of byte streams: sources that hand out their bytes in pieces of their own choice, the
buffer over a source, the limit on a reader, and reading up to a delimiter. The results depend
on what a reader has to give, never on the pieces. -/

namespace MemoryEngine.Readers

universe u

/-! ## Lines of a list -/

section lines
variable {α : Type u} [DecidableEq α] (delim : α)

/-- The front of a list, up to and with the first delimiter. -/
def upto : List α → List α
  | [] => []
  | b :: rest => if b = delim then [b] else b :: upto rest

/-- What follows the first delimiter. -/
def past : List α → List α
  | [] => []
  | b :: rest => if b = delim then rest else past rest

/-- The parts that end with a delimiter each, and what is left after the last. -/
def lines : List α → List (List α)
  | [] => []
  | b :: rest =>
    if b = delim then [b] :: lines rest else
      match lines rest with
      | [] => [[b]]
      | line :: others => (b :: line) :: others

variable {delim}

theorem upto_append_past (delim : α) (l : List α) : upto delim l ++ past delim l = l := by
  induction l with
  | nil => rfl
  | cons b rest ih =>
    rw [upto,past]
    by_cases here : b = delim
    · rw [if_pos here,if_pos here]
      rfl
    · rw [if_neg here,if_neg here,List.cons_append,ih]

theorem upto_of_not_mem {l : List α} (absent : delim ∉ l) : upto delim l = l := by
  induction l with
  | nil => rfl
  | cons b rest ih =>
    obtain ⟨other,later⟩ := not_or.mp (mt List.mem_cons.mpr absent)
    rw [upto,if_neg (Ne.symm other),ih later]

theorem past_of_not_mem {l : List α} (absent : delim ∉ l) : past delim l = [] := by
  have parts := upto_append_past delim l
  rw [upto_of_not_mem absent] at parts
  exact List.append_right_eq_self.mp parts

theorem upto_append {a b : List α} (absent : delim ∉ a) : upto delim (a ++ b) = a ++ upto delim b := by
  induction a with
  | nil => rfl
  | cons c rest ih =>
    obtain ⟨other,later⟩ := not_or.mp (mt List.mem_cons.mpr absent)
    rw [List.cons_append,upto,if_neg (Ne.symm other),ih later]
    rfl

theorem past_append {a b : List α} (absent : delim ∉ a) : past delim (a ++ b) = past delim b := by
  have parts := upto_append_past delim (a ++ b)
  rw [upto_append absent,List.append_assoc] at parts
  exact List.append_cancel_left ((List.append_cancel_left parts).trans (upto_append_past delim b).symm)

theorem upto_append_of_mem {a : List α} (present : delim ∈ a) (b : List α) : upto delim (a ++ b) = upto delim a := by
  obtain ⟨front,rest,rfl,absent⟩ := List.eq_append_cons_of_mem present
  rw [List.append_assoc,upto_append absent,upto_append absent,List.cons_append,upto,upto,if_pos rfl,if_pos rfl]

theorem past_append_of_mem {a : List α} (present : delim ∈ a) (b : List α) : past delim (a ++ b) = past delim a ++ b := by
  have parts := upto_append_past delim (a ++ b)
  rw [upto_append_of_mem present] at parts
  conv at parts => rhs; rw [← upto_append_past delim a,List.append_assoc]
  exact List.append_cancel_left parts

/-- With a delimiter in it, a list is a front without one, the delimiter, and the rest. -/
theorem upto_of_mem {l : List α} (present : delim ∈ l) : ∃ front, delim ∉ front ∧ upto delim l = front ++ [delim] := by
  obtain ⟨front,rest,same,absent⟩ := List.eq_append_cons_of_mem present
  exact ⟨front,absent,by rw [same,upto_append absent,upto,if_pos rfl]⟩

theorem mem_upto {l : List α} : delim ∈ upto delim l ↔ delim ∈ l := by
  constructor
  · intro inside
    rw [← upto_append_past delim l]
    exact List.mem_append_left _ inside
  · intro present
    obtain ⟨front,_,same⟩ := upto_of_mem present
    rw [same]
    exact List.mem_append_right _ (List.mem_singleton_self delim)

theorem length_upto_le (delim : α) (l : List α) : (upto delim l).length ≤ l.length := by
  have parts := congrArg List.length (upto_append_past delim l)
  rw [List.length_append] at parts
  omega

theorem drop_upto (l : List α) : l.drop (upto delim l).length = past delim l := by
  conv_lhs => arg 2; rw [← upto_append_past delim l]
  rw [List.drop_left]

theorem upto_ne_nil {l : List α} (some_ : l ≠ []) : upto delim l ≠ [] := by
  intro empty
  cases l with
  | nil => exact some_ rfl
  | cons b rest =>
    rw [upto] at empty
    split at empty <;> cases empty

theorem last_of_upto {l : List α} (present : delim ∈ l) : (upto delim l).getLast? = some delim := by
  obtain ⟨front,_,same⟩ := upto_of_mem present
  rw [same,List.getLast?_concat]

theorem take_upto (l : List α) (n : Nat) : (upto delim l).take n = upto delim (l.take n) := by
  induction l generalizing n with
  | nil => rw [upto,List.take_nil,upto]
  | cons b rest ih =>
    cases n with
    | zero => rfl
    | succ n =>
      rw [upto,List.take_succ_cons,upto]
      by_cases here : b = delim
      · rw [if_pos here,if_pos here,List.take_succ_cons,List.take_nil]
      · rw [if_neg here,if_neg here,List.take_succ_cons,ih]

/-- The position of the first delimiter cuts the list there. -/
theorem cut_of_idxOf {l : List α} {i : Nat} (found : l.idxOf? delim = some i) :
    delim ∈ l ∧ l.take (i + 1) = upto delim l ∧ (upto delim l).length = i + 1 := by
  induction l generalizing i with
  | nil => cases found
  | cons b rest ih =>
    rw [List.idxOf?_cons] at found
    by_cases here : b = delim
    · rw [if_pos (beq_iff_eq.mpr here),Option.some.injEq] at found
      rw [upto,if_pos here,← found,here]
      exact ⟨List.mem_cons_self,rfl,rfl⟩
    · rw [if_neg (by simpa using here)] at found
      obtain ⟨j,later,rfl⟩ := Option.map_eq_some_iff.mp found
      obtain ⟨present,front,length⟩ := ih later
      rw [upto,if_neg here,List.take_succ_cons,front,List.length_cons,length]
      exact ⟨List.mem_cons_of_mem b present,rfl,rfl⟩

theorem lines_of_mem {l : List α} (present : delim ∈ l) : lines delim l = upto delim l :: lines delim (past delim l) := by
  induction l with
  | nil => cases present
  | cons b rest ih =>
    rw [lines,upto,past]
    by_cases here : b = delim
    · rw [if_pos here,if_pos here,if_pos here,here]
    · have later : delim ∈ rest := (List.mem_cons.mp present).resolve_left (Ne.symm here)
      rw [if_neg here,if_neg here,if_neg here,ih later]

theorem lines_of_not_mem {l : List α} (absent : delim ∉ l) (some_ : l ≠ []) : lines delim l = [l] := by
  induction l with
  | nil => exact absurd rfl some_
  | cons b rest ih =>
    obtain ⟨other,later⟩ := not_or.mp (mt List.mem_cons.mpr absent)
    rw [lines,if_neg (Ne.symm other)]
    cases rest with
    | nil => rfl
    | cons c rest => rw [ih later (List.cons_ne_nil c rest)]

end lines

/-! ## Streams -/

inductive ErrorKind where
  | InvalidData
  | Other
deriving DecidableEq

/-- What a reader still has to give: bytes, and the error behind them if it ends in one. -/
structure Stream where
  bytes : List UInt8
  failure : Option ErrorKind

namespace Stream

def ended : Stream := ⟨[],none⟩

def after (s : Stream) (bytes : List UInt8) : Stream := ⟨bytes ++ s.bytes,s.failure⟩

def drop (s : Stream) (n : Nat) : Stream := ⟨s.bytes.drop n,s.failure⟩

/-- A limit that is reached before the error hides it. -/
def take (s : Stream) (n : Nat) : Stream := ⟨s.bytes.take n,if n ≤ s.bytes.length then none else s.failure⟩

theorem after_nil (s : Stream) : s.after [] = s := rfl

theorem after_append (s : Stream) (a b : List UInt8) : (s.after b).after a = s.after (a ++ b) := by
  rw [after,after,after,List.append_assoc]

theorem drop_after (s : Stream) (bytes : List UInt8) : (s.after bytes).drop bytes.length = s := by
  rw [after,drop,List.drop_left]

theorem take_after (s : Stream) (bytes : List UInt8) (n : Nat) :
    (s.after bytes).take n = (s.take (n - bytes.length)).after (bytes.take n) := by
  have same : n ≤ (bytes ++ s.bytes).length ↔ n - bytes.length ≤ s.bytes.length := by
    rw [List.length_append]
    omega
  simp only [take,after,List.take_append,same]

theorem take_ended (n : Nat) : ended.take n = ended := by
  simp [take,ended]

/-- The lines of a stream; behind an error is a line that cannot be read. -/
def items (delim : UInt8) (s : Stream) : List (Option (List UInt8)) :=
  match s.failure with
  | none => (lines delim s.bytes).map some
  | some _ => ((lines delim s.bytes).filter fun line => line.contains delim).map some ++ [none]

variable {delim : UInt8} {s : Stream}

theorem items_of_mem (present : delim ∈ s.bytes) :
    s.items delim = some (upto delim s.bytes) :: items delim ⟨past delim s.bytes,s.failure⟩ := by
  have closed : (upto delim s.bytes).contains delim = true := List.contains_iff_mem.mpr (mem_upto.mpr present)
  unfold items
  cases s.failure with
  | none => simp only [lines_of_mem present,List.map_cons]
  | some e =>
    simp only [lines_of_mem present]
    rw [List.filter_cons,if_pos closed]
    rfl

theorem items_of_last (absent : delim ∉ s.bytes) (some_ : s.bytes ≠ []) (whole : s.failure = none) :
    s.items delim = [some s.bytes] := by
  rw [items,whole]
  simp only [lines_of_not_mem absent some_,List.map_cons,List.map_nil]

/-- The first line of a stream that has one, and the lines behind it. -/
theorem items_of_line (some_ : s.bytes ≠ []) (closed : delim ∈ s.bytes ∨ s.failure = none) :
    s.items delim = some (upto delim s.bytes) :: items delim ⟨past delim s.bytes,s.failure⟩ := by
  by_cases present : delim ∈ s.bytes
  · exact items_of_mem present
  · have whole := closed.resolve_left present
    rw [items_of_last present some_ whole,upto_of_not_mem present,past_of_not_mem present,whole]
    rfl

theorem items_ended : ended.items delim = [] := rfl

/-- A read that finds nothing below its limit has come to the end. -/
theorem ended_of_closed {limit : Nat} (positive : 0 < limit) (empty : s.bytes = [])
    (closed : delim ∈ s.bytes.take limit ∨ limit ≤ s.bytes.length ∨ s.failure = none) : s = ended := by
  rw [empty,List.take_nil,List.length_nil] at closed
  have whole : s.failure = none := by
    rcases closed with member | beyond | whole
    · cases member
    · omega
    · exact whole
  cases s
  cases empty
  cases whole
  rfl

theorem items_of_failure (absent : delim ∉ s.bytes) {e : ErrorKind} (failed : s.failure = some e) : s.items delim = [none] := by
  rw [items,failed]
  by_cases empty : s.bytes = []
  · rw [empty]
    rfl
  · have open_ : s.bytes.contains delim = false := by simpa using absent
    simp only [lines_of_not_mem absent empty]
    rw [List.filter_cons_of_neg (by rw [open_]; exact Bool.false_ne_true)]
    rfl

end Stream

/-! ## Sources and buffers -/

class Source (ρ : Type) where
  stream : ρ → Stream

open Source

/-- A source of bytes. A read of up to `k` gives at least one byte before the end. -/
class Read (ρ : Type) extends Source ρ where
  read : ρ → Nat → Except ErrorKind (List UInt8) × ρ
  read_ok : ∀ (r : ρ) (k : Nat) (bytes : List UInt8), 0 < k → (read r k).1 = .ok bytes →
    bytes.length ≤ k ∧ stream r = (stream (read r k).2).after bytes ∧ (bytes = [] → stream r = .ended)
  read_error : ∀ (r : ρ) (k : Nat) (e : ErrorKind), 0 < k → (read r k).1 = .error e → stream r = ⟨[],some e⟩

/-- A reader with a buffer. Of what the buffer was filled with, any front can be consumed. -/
class BufRead (ρ : Type) extends Source ρ where
  fill_buf : ρ → Except ErrorKind (List UInt8) × ρ
  consume : ρ → Nat → ρ
  fill_ok : ∀ (r : ρ) (available : List UInt8), (fill_buf r).1 = .ok available →
    ∃ rest : Stream, stream r = rest.after available ∧ (available = [] → rest = .ended) ∧
      ∀ n ≤ available.length, stream (consume (fill_buf r).2 n) = rest.after (available.drop n)
  fill_error : ∀ (r : ρ) (e : ErrorKind), (fill_buf r).1 = .error e → stream r = ⟨[],some e⟩
  consume_zero : ∀ r : ρ, stream (consume r 0) = stream r

open Read BufRead

/-- A source with given pieces, which may end in an error. -/
structure Pieces where
  pieces : List (List UInt8)
  failure : Option ErrorKind
  filled : ∀ piece ∈ pieces, piece ≠ []

def Pieces.rest (piece : List UInt8) (others : List (List UInt8)) : List (List UInt8) :=
  if piece = [] then others else piece :: others

theorem Pieces.rest_filled {piece : List UInt8} {others : List (List UInt8)} (filled : ∀ p ∈ others, p ≠ []) :
    ∀ p ∈ rest piece others, p ≠ [] := by
  intro p member
  unfold rest at member
  by_cases empty : piece = []
  · rw [if_pos empty] at member
    exact filled p member
  · rw [if_neg empty] at member
    rcases List.mem_cons.mp member with rfl | later
    · exact empty
    · exact filled p later

theorem Pieces.flatten_rest (piece : List UInt8) (others : List (List UInt8)) : (rest piece others).flatten = piece ++ others.flatten := by
  unfold rest
  by_cases empty : piece = []
  · rw [if_pos empty,empty]
    rfl
  · rw [if_neg empty,List.flatten_cons]

instance : Read Pieces where
  stream p := ⟨p.pieces.flatten,p.failure⟩
  read
    | ⟨[],none,filled⟩,_ => (.ok [],⟨[],none,filled⟩)
    | ⟨[],some e,filled⟩,_ => (.error e,⟨[],some e,filled⟩)
    | ⟨piece :: others,failure,filled⟩,k => (.ok (piece.take k),⟨Pieces.rest (piece.drop k) others,failure,
        Pieces.rest_filled fun p member => filled p (List.mem_cons_of_mem piece member)⟩)
  read_ok := by
    rintro ⟨pieces,failure,filled⟩ k bytes positive got
    cases pieces with
    | nil =>
      cases failure with
      | none =>
        cases got
        exact ⟨Nat.zero_le k,rfl,fun _ => rfl⟩
      | some e => cases got
    | cons piece others =>
      cases got
      refine ⟨List.length_take_le k piece,?_,fun empty => ?_⟩
      · simp only [Stream.after,Pieces.flatten_rest,List.flatten_cons]
        rw [← List.append_assoc,List.take_append_drop]
      · rcases List.take_eq_nil_iff.mp empty with zero | none_
        · omega
        · exact absurd none_ (filled piece List.mem_cons_self)
  read_error := by
    rintro ⟨pieces,failure,filled⟩ k e positive got
    cases pieces with
    | nil =>
      cases failure with
      | none => cases got
      | some e => cases got; rfl
    | cons piece others => cases got

/-! ### A limit on a reader -/

/-- A reader that ends after `limit` bytes. -/
structure Take (ρ : Type) where
  inner : ρ
  limit : Nat

instance {ρ : Type} [Source ρ] : Source (Take ρ) := ⟨fun t => (stream t.inner).take t.limit⟩

section limit
variable {ρ : Type}

def Take.read [Read ρ] (t : Take ρ) (k : Nat) : Except ErrorKind (List UInt8) × Take ρ :=
  if t.limit = 0 then (.ok [],t) else
    match Read.read t.inner (min k t.limit) with
    | (.ok bytes,inner) => (.ok bytes,⟨inner,t.limit - bytes.length⟩)
    | (.error e,inner) => (.error e,⟨inner,t.limit⟩)

def Take.fill_buf [BufRead ρ] (t : Take ρ) : Except ErrorKind (List UInt8) × Take ρ :=
  if t.limit = 0 then (.ok [],t) else
    match BufRead.fill_buf t.inner with
    | (.ok available,inner) => (.ok (available.take t.limit),⟨inner,t.limit⟩)
    | (.error e,inner) => (.error e,⟨inner,t.limit⟩)

def Take.consume [BufRead ρ] (t : Take ρ) (amount : Nat) : Take ρ :=
  ⟨BufRead.consume t.inner (min amount t.limit),t.limit - min amount t.limit⟩

theorem Take.stream_zero [Source ρ] {t : Take ρ} (zero : t.limit = 0) : stream t = .ended := by
  change (stream t.inner).take t.limit = .ended
  rw [zero]
  simp [Stream.take,Stream.ended]

instance [Read ρ] : Read (Take ρ) where
  read := Take.read
  read_ok := by
    intro t k bytes positive got
    unfold Take.read at got ⊢
    by_cases zero : t.limit = 0
    · rw [if_pos zero] at got ⊢
      cases got
      exact ⟨Nat.zero_le k,rfl,fun _ => Take.stream_zero zero⟩
    · rw [if_neg zero] at got ⊢
      have asked : 0 < min k t.limit := by omega
      have law := Read.read_ok t.inner (min k t.limit)
      cases inner : Read.read t.inner (min k t.limit) with
      | mk result later =>
        rw [inner] at got law
        cases result with
        | error e => cases got
        | ok front =>
          cases got
          obtain ⟨short,parts,last⟩ := law bytes asked rfl
          refine ⟨by omega,?_,fun empty => ?_⟩
          · change (stream t.inner).take t.limit = _
            rw [parts,Stream.take_after,List.take_of_length_le (by omega)]
            rfl
          · change (stream t.inner).take t.limit = _
            rw [last empty,Stream.take_ended]
  read_error := by
    intro t k e positive got
    unfold Take.read at got
    by_cases zero : t.limit = 0
    · rw [if_pos zero] at got
      cases got
    · rw [if_neg zero] at got
      have asked : 0 < min k t.limit := by omega
      have law := Read.read_error t.inner (min k t.limit)
      cases inner : Read.read t.inner (min k t.limit) with
      | mk result later =>
        rw [inner] at got law
        cases result with
        | ok front => cases got
        | error e' =>
          cases got
          change (stream t.inner).take t.limit = _
          rw [law e asked rfl]
          simp [Stream.take,zero]

instance [BufRead ρ] : BufRead (Take ρ) where
  fill_buf := Take.fill_buf
  consume := Take.consume
  fill_ok := by
    intro t available got
    unfold Take.fill_buf at got ⊢
    by_cases zero : t.limit = 0
    · rw [if_pos zero] at got ⊢
      cases got
      refine ⟨.ended,Take.stream_zero zero,fun _ => rfl,fun n within => ?_⟩
      obtain rfl : n = 0 := Nat.le_zero.mp within
      exact Take.stream_zero (by simp [Take.consume,zero])
    · rw [if_neg zero] at got ⊢
      have law := BufRead.fill_ok t.inner
      cases inner : BufRead.fill_buf t.inner with
      | mk result later =>
        rw [inner] at got law
        cases result with
        | error e => cases got
        | ok front =>
          cases got
          obtain ⟨rest,parts,last,consumed⟩ := law front rfl
          refine ⟨rest.take (t.limit - front.length),?_,fun empty => ?_,fun n within => ?_⟩
          · change (stream t.inner).take t.limit = _
            rw [parts,Stream.take_after]
          · rw [last ((List.take_eq_nil_iff.mp empty).resolve_left zero),Stream.take_ended]
          · rw [List.length_take] at within
            have all : min n t.limit = n := by omega
            change (stream (BufRead.consume later (min n t.limit))).take (t.limit - min n t.limit) = _
            rw [all,consumed n (by omega),Stream.take_after,List.length_drop,List.drop_take]
            congr 2
            omega
  fill_error := by
    intro t e got
    unfold Take.fill_buf at got
    by_cases zero : t.limit = 0
    · rw [if_pos zero] at got
      cases got
    · rw [if_neg zero] at got
      have law := BufRead.fill_error t.inner
      cases inner : BufRead.fill_buf t.inner with
      | mk result later =>
        rw [inner] at got law
        cases result with
        | ok front => cases got
        | error e' =>
          cases got
          change (stream t.inner).take t.limit = _
          rw [law e rfl]
          simp [Stream.take,zero]
  consume_zero := by
    intro t
    change (stream (BufRead.consume t.inner (min 0 t.limit))).take (t.limit - min 0 t.limit) = (stream t.inner).take t.limit
    rw [Nat.zero_min,BufRead.consume_zero,Nat.sub_zero]

end limit

/-! ### A buffer over a source -/

def DEFAULT_BUF_SIZE : Nat := 8 * 1024

structure BufReader (ρ : Type) where
  inner : ρ
  buf : List UInt8

section buffer
variable {ρ : Type}

def BufReader.new (inner : ρ) : BufReader ρ := ⟨inner,[]⟩

/-- Only an empty buffer is filled. -/
def BufReader.fill_buf [Read ρ] (b : BufReader ρ) : Except ErrorKind (List UInt8) × BufReader ρ :=
  if b.buf = [] then
    match Read.read b.inner DEFAULT_BUF_SIZE with
    | (.ok bytes,inner) => (.ok bytes,⟨inner,bytes⟩)
    | (.error e,inner) => (.error e,⟨inner,[]⟩)
  else (.ok b.buf,b)

instance [Source ρ] : Source (BufReader ρ) := ⟨fun b => (stream b.inner).after b.buf⟩

theorem BufReader.stream_new [Source ρ] (inner : ρ) : stream (BufReader.new inner) = stream inner := rfl

instance [Read ρ] : BufRead (BufReader ρ) where
  fill_buf := BufReader.fill_buf
  consume b amount := ⟨b.inner,b.buf.drop amount⟩
  fill_ok := by
    intro b available got
    unfold BufReader.fill_buf at got ⊢
    by_cases empty : b.buf = []
    · rw [if_pos empty] at got ⊢
      have law := Read.read_ok b.inner DEFAULT_BUF_SIZE
      cases inner : Read.read b.inner DEFAULT_BUF_SIZE with
      | mk result later =>
        rw [inner] at got law
        cases result with
        | error e => cases got
        | ok bytes =>
          cases got
          obtain ⟨_,parts,last⟩ := law available (by decide) rfl
          refine ⟨stream later,?_,fun none_ => ?_,fun n within => rfl⟩
          · change (stream b.inner).after b.buf = _
            rw [empty,Stream.after_nil,parts]
          · rw [last none_,none_] at parts
            exact parts.symm
    · rw [if_neg empty] at got ⊢
      cases got
      exact ⟨stream b.inner,rfl,fun none_ => absurd none_ empty,fun n within => rfl⟩
  fill_error := by
    intro b e got
    unfold BufReader.fill_buf at got
    by_cases empty : b.buf = []
    · rw [if_pos empty] at got
      have law := Read.read_error b.inner DEFAULT_BUF_SIZE
      cases inner : Read.read b.inner DEFAULT_BUF_SIZE with
      | mk result later =>
        rw [inner] at got law
        cases result with
        | ok bytes => cases got
        | error e' =>
          cases got
          change (stream b.inner).after b.buf = _
          rw [empty,Stream.after_nil,law e (by decide) rfl]
    · rw [if_neg empty] at got
      cases got
  consume_zero := fun _ => rfl

end buffer

/-! ## Reading -/

section reading
variable {ρ : Type} [BufRead ρ] (delim : UInt8)

/-- What stays after a part of a full buffer is consumed is shorter by that part. -/
theorem consume_shorter {r : ρ} {available : List UInt8} (got : (BufRead.fill_buf r).1 = .ok available) {n : Nat} (within : n ≤ available.length) :
    (stream (BufRead.consume (BufRead.fill_buf r).2 n)).bytes.length + n = (stream r).bytes.length := by
  obtain ⟨rest,parts,_,consumed⟩ := BufRead.fill_ok r available got
  rw [consumed n within,parts]
  simp only [Stream.after,List.length_append,List.length_drop]
  omega

/-- Bytes up to and with the delimiter are appended to `buf`; `read` is how many there are. -/
def read_until (r : ρ) (buf : List UInt8) (read : Nat) : Except ErrorKind Nat × List UInt8 × ρ :=
  match _got : BufRead.fill_buf r with
  | (.error e,later) => (.error e,buf,later)
  | (.ok available,later) =>
    match available.idxOf? delim with
    | some i => (.ok (read + (i + 1)),buf ++ available.take (i + 1),BufRead.consume later (i + 1))
    | none =>
      if available.length = 0 then (.ok read,buf ++ available,BufRead.consume later available.length)
      else read_until (BufRead.consume later available.length) (buf ++ available) (read + available.length)
termination_by (stream r).bytes.length
decreasing_by
  have shorter := consume_shorter (r := r) (by rw [_got]) (Nat.le_refl available.length)
  rw [_got] at shorter
  dsimp only at shorter
  omega

/-- Bytes up to and with the delimiter are dropped. -/
def skip_until (r : ρ) (read : Nat) : Except ErrorKind Nat × ρ :=
  match _got : BufRead.fill_buf r with
  | (.error e,later) => (.error e,later)
  | (.ok available,later) =>
    match available.idxOf? delim with
    | some i => (.ok (read + (i + 1)),BufRead.consume later (i + 1))
    | none =>
      if available.length = 0 then (.ok read,BufRead.consume later available.length)
      else skip_until (BufRead.consume later available.length) (read + available.length)
termination_by (stream r).bytes.length
decreasing_by
  have shorter := consume_shorter (r := r) (by rw [_got]) (Nat.le_refl available.length)
  rw [_got] at shorter
  dsimp only at shorter
  omega

variable {delim}

/-- What one filling of the buffer shows of the stream. -/
inductive Filled (delim : UInt8) (r : ρ) : Except ErrorKind (List UInt8) × ρ → Prop where
  | failed (e : ErrorKind) (later : ρ) (here : stream r = ⟨[],some e⟩) : Filled delim r (.error e,later)
  | found (available : List UInt8) (later : ρ) (i : Nat) (at_ : available.idxOf? delim = some i) (present : delim ∈ (stream r).bytes)
      (front : available.take (i + 1) = upto delim (stream r).bytes) (length : (upto delim (stream r).bytes).length = i + 1)
      (rest : stream (BufRead.consume later (i + 1)) = ⟨past delim (stream r).bytes,(stream r).failure⟩) : Filled delim r (.ok available,later)
  | ended (later : ρ) (here : stream r = .ended) (rest : stream (BufRead.consume later 0) = .ended) : Filled delim r (.ok [],later)
  | more (available : List UInt8) (later : ρ) (absent : delim ∉ available) (some_ : available ≠ [])
      (rest : stream r = (stream (BufRead.consume later available.length)).after available) : Filled delim r (.ok available,later)

theorem filled (delim : UInt8) (r : ρ) : Filled delim r (BufRead.fill_buf r) := by
  have ok := BufRead.fill_ok r
  have error := BufRead.fill_error r
  cases got : BufRead.fill_buf r with
  | mk result later =>
    rw [got] at ok error
    cases result with
    | error e => exact .failed e later (error e rfl)
    | ok available =>
      obtain ⟨rest,parts,last,consumed⟩ := ok available rfl
      cases at_ : available.idxOf? delim with
      | some i =>
        obtain ⟨present,front,length⟩ := cut_of_idxOf at_
        have within : i + 1 ≤ available.length := length ▸ length_upto_le delim available
        have cut : available.drop (i + 1) = past delim available := by rw [← length,drop_upto]
        have first : upto delim (stream r).bytes = upto delim available := by rw [parts,Stream.after,upto_append_of_mem present]
        have second : past delim (stream r).bytes = past delim available ++ rest.bytes := by
          rw [parts,Stream.after,past_append_of_mem present]
        refine .found available later i at_ ?_ (by rw [front,first]) (by rw [first,length]) ?_
        · rw [parts]
          exact List.mem_append_left _ present
        · rw [consumed (i + 1) within,cut,second,parts]
          rfl
      | none =>
        have absent := List.idxOf?_eq_none_iff.mp at_
        have all := consumed available.length (Nat.le_refl _)
        rw [List.drop_length,Stream.after_nil] at all
        by_cases empty : available = []
        · subst empty
          rw [last rfl] at parts all
          exact .ended later parts all
        · exact .more available later absent empty (by rw [all,parts])

/-- Reading up to a delimiter gives the first line, or fails where the stream does. -/
inductive ReadsUntil (delim : UInt8) (s : Stream) (buf : List UInt8) (read : Nat) : Except ErrorKind Nat × List UInt8 × ρ → Prop where
  | line (later : ρ) (closed : delim ∈ s.bytes ∨ s.failure = none) (rest : stream later = ⟨past delim s.bytes,s.failure⟩) :
      ReadsUntil delim s buf read (.ok (read + (upto delim s.bytes).length),buf ++ upto delim s.bytes,later)
  | failed (e : ErrorKind) (part : List UInt8) (later : ρ) (absent : delim ∉ s.bytes) (failed : s.failure = some e) :
      ReadsUntil delim s buf read (.error e,part,later)

theorem ReadsUntil.more {s : Stream} {available buf : List UInt8} {read : Nat} {result : Except ErrorKind Nat × List UInt8 × ρ}
    (absent : delim ∉ available) (reads : ReadsUntil delim s (buf ++ available) (read + available.length) result) :
    ReadsUntil delim (s.after available) buf read result := by
  have first : upto delim (s.after available).bytes = available ++ upto delim s.bytes := upto_append absent
  have second : past delim (s.after available).bytes = past delim s.bytes := past_append absent
  cases reads with
  | line later closed rest =>
    have whole : ReadsUntil delim (s.after available) buf read (.ok _,_,later) :=
      .line later (closed.imp_left (List.mem_append_right _)) (by rw [second,rest]; rfl)
    rwa [first,List.length_append,← Nat.add_assoc,← List.append_assoc] at whole
  | failed e part later none_ failed =>
    refine .failed e part later (fun member => ?_) failed
    exact (List.mem_append.mp member).elim absent none_

theorem reads_until (r : ρ) (buf : List UInt8) (read : Nat) : ReadsUntil delim (stream r) buf read (read_until delim r buf read) := by
  fun_induction read_until delim r buf read with
  | case1 r buf read e later got =>
    have shown := filled delim r
    rw [got] at shown
    cases shown with
    | failed e later here =>
      rw [here]
      exact .failed e buf later List.not_mem_nil rfl
  | case2 r buf read available later got i at_ =>
    have shown := filled delim r
    rw [got] at shown
    cases shown with
    | found available later j at' present front length rest =>
      obtain rfl : i = j := Option.some.inj (at_.symm.trans at')
      have whole : ReadsUntil delim (stream r) buf read (.ok _,_,BufRead.consume later (i + 1)) := .line _ (Or.inl present) rest
      rwa [length,← front] at whole
    | ended later here rest => cases at_
    | more available later absent some_ rest => exact absurd (cut_of_idxOf at_).1 absent
  | case3 r buf read available later got at_ empty =>
    have shown := filled delim r
    rw [got] at shown
    cases shown with
    | found available later j at' present front length rest =>
      rw [at_] at at'
      cases at'
    | ended later here rest =>
      have whole : ReadsUntil delim (stream r) buf read (.ok _,_,BufRead.consume later 0) := .line _ (Or.inr (by rw [here]; rfl)) (by rw [rest,here]; rfl)
      rw [here] at whole ⊢
      exact whole
    | more available later absent some_ rest => exact absurd (List.length_eq_zero_iff.mp empty) some_
  | case4 r buf read available later got at_ some_ ih =>
    have shown := filled delim r
    rw [got] at shown
    cases shown with
    | found available later j at' present front length rest =>
      rw [at_] at at'
      cases at'
    | ended later here rest => exact absurd rfl some_
    | more available later absent nonempty rest =>
      rw [rest]
      exact ih.more absent

/-- Dropping the bytes moves the reader as reading them does. -/
theorem skip_eq_read (r : ρ) (buf : List UInt8) (read : Nat) :
    skip_until delim r read = ((read_until delim r buf read).1,(read_until delim r buf read).2.2) := by
  fun_induction read_until delim r buf read with
  | case1 r buf read e later got =>
    rw [skip_until]
    split <;> rename_i got' <;> cases got.symm.trans got'
    rfl
  | case2 r buf read available later got i at_ =>
    rw [skip_until]
    split <;> rename_i got' <;> cases got.symm.trans got'
    simp only [at_]
  | case3 r buf read available later got at_ empty =>
    rw [skip_until]
    split <;> rename_i got' <;> cases got.symm.trans got'
    simp only [at_,if_pos empty]
  | case4 r buf read available later got at_ some_ ih =>
    rw [skip_until]
    split <;> rename_i got' <;> cases got.symm.trans got'
    simp only [at_,if_neg some_]
    exact ih

/-- Skipping goes past the next delimiter, or to the end. -/
inductive SkipsUntil (delim : UInt8) (s : Stream) (read : Nat) : Except ErrorKind Nat × ρ → Prop where
  | line (later : ρ) (closed : delim ∈ s.bytes ∨ s.failure = none) (rest : stream later = ⟨past delim s.bytes,s.failure⟩) :
      SkipsUntil delim s read (.ok (read + (upto delim s.bytes).length),later)
  | failed (e : ErrorKind) (later : ρ) (absent : delim ∉ s.bytes) (failed : s.failure = some e) : SkipsUntil delim s read (.error e,later)

theorem skips_until (r : ρ) (read : Nat) : SkipsUntil delim (stream r) read (skip_until delim r read) := by
  have reads := @reads_until ρ _ delim r [] read
  rw [skip_eq_read r [] read]
  generalize read_until delim r [] read = result at reads
  cases reads with
  | line later closed rest => exact .line later closed rest
  | failed e part later absent failed => exact .failed e later absent failed

/-- What every step of the reading keeps holds of the reader and the bytes at its end. -/
theorem read_until_keeps {P : ρ → List UInt8 → Prop}
    (step : ∀ r buf available n, (BufRead.fill_buf r).1 = .ok available → n ≤ available.length → P r buf →
      P (BufRead.consume (BufRead.fill_buf r).2 n) (buf ++ available.take n))
    {r : ρ} {buf : List UInt8} {read : Nat} (start : P r buf) {n : Nat} (done : (read_until delim r buf read).1 = .ok n) :
    P (read_until delim r buf read).2.2 (read_until delim r buf read).2.1 := by
  fun_induction read_until delim r buf read with
  | case1 r buf read e later got => cases done
  | case2 r buf read available later got i at_ =>
    have within : i + 1 ≤ available.length := (cut_of_idxOf at_).2.2 ▸ length_upto_le delim available
    have next := step r buf available (i + 1) (by rw [got]) within start
    rwa [got] at next
  | case3 r buf read available later got at_ empty =>
    have next := step r buf available available.length (by rw [got]) (Nat.le_refl _) start
    rwa [got,List.take_length] at next
  | case4 r buf read available later got at_ some_ ih =>
    have next := step r buf available available.length (by rw [got]) (Nat.le_refl _) start
    rw [got,List.take_length] at next
    exact ih next done

/-- Reading behind a limit gives the first line or the bytes up to the limit, and leaves the
    reader behind them. -/
inductive ReadsWithin (delim : UInt8) (s : Stream) (limit : Nat) : Except ErrorKind Nat × List UInt8 × Take ρ → Prop where
  | line (later : Take ρ) (closed : delim ∈ s.bytes.take limit ∨ limit ≤ s.bytes.length ∨ s.failure = none)
      (rest : stream later.inner = s.drop (upto delim (s.bytes.take limit)).length) :
      ReadsWithin delim s limit (.ok (upto delim (s.bytes.take limit)).length,upto delim (s.bytes.take limit),later)
  | failed (e : ErrorKind) (part : List UInt8) (later : Take ρ) (absent : delim ∉ s.bytes) (short : s.bytes.length < limit)
      (failed : s.failure = some e) : ReadsWithin delim s limit (.error e,part,later)

theorem Take.keeps_source {s : Stream} (t : Take ρ) (buf available : List UInt8) (n : Nat) (got : (BufRead.fill_buf t).1 = .ok available)
    (within : n ≤ available.length) (parts : s = (stream t.inner).after buf) :
    s = (stream (BufRead.consume (BufRead.fill_buf t).2 n).inner).after (buf ++ available.take n) := by
  change (Take.fill_buf t).1 = _ at got
  change s = (stream (BufRead.consume (Take.fill_buf t).2.inner (min n (Take.fill_buf t).2.limit))).after _
  unfold Take.fill_buf at got ⊢
  by_cases zero : t.limit = 0
  · rw [if_pos zero] at got ⊢
    cases got
    rw [zero,Nat.min_zero,BufRead.consume_zero,List.take_nil,List.append_nil]
    exact parts
  · rw [if_neg zero] at got ⊢
    have law := BufRead.fill_ok t.inner
    cases inner : BufRead.fill_buf t.inner with
    | mk result later =>
      rw [inner] at got law
      cases result with
      | error e => cases got
      | ok front =>
        cases got
        obtain ⟨rest,source,_,consumed⟩ := law front rfl
        rw [List.length_take] at within
        have all : min n t.limit = n := by omega
        have front_ : (front.take t.limit).take n = front.take n := by rw [List.take_take,all]
        change s = (stream (BufRead.consume later (min n t.limit))).after _
        rw [all,consumed n (by omega),front_,parts,source,Stream.after_append,Stream.after_append,List.append_assoc,List.take_append_drop]

theorem reads_within (r : ρ) (limit : Nat) : ReadsWithin delim (stream r) limit (read_until delim (⟨r,limit⟩ : Take ρ) [] 0) := by
  have reads : ReadsUntil delim ((stream r).take limit) [] 0 (read_until delim (⟨r,limit⟩ : Take ρ) [] 0) :=
    @reads_until (Take ρ) _ delim ⟨r,limit⟩ [] 0
  have kept : ∀ {n : Nat}, (read_until delim (⟨r,limit⟩ : Take ρ) [] 0).1 = .ok n →
      stream r = (stream (read_until delim (⟨r,limit⟩ : Take ρ) [] 0).2.2.inner).after (read_until delim (⟨r,limit⟩ : Take ρ) [] 0).2.1 :=
    read_until_keeps (P := fun (t : Take ρ) buf => stream r = (stream t.inner).after buf) Take.keeps_source rfl
  generalize read_until delim (⟨r,limit⟩ : Take ρ) [] 0 = result at reads kept
  cases reads with
  | line later closed rest =>
    rw [Nat.zero_add,List.nil_append]
    refine .line later ?_ ?_
    · refine closed.imp_right fun whole => ?_
      change (if limit ≤ _ then none else _) = none at whole
      by_cases beyond : limit ≤ (stream r).bytes.length
      · exact Or.inl beyond
      · rw [if_neg beyond] at whole
        exact Or.inr whole
    · have whole := Stream.drop_after (stream later.inner) (upto delim ((stream r).bytes.take limit))
      have parts : stream r = (stream later.inner).after (upto delim ((stream r).bytes.take limit)) := kept rfl
      rw [← parts] at whole
      exact whole.symm
  | failed e part later absent failed =>
    change (if limit ≤ _ then none else _) = some e at failed
    by_cases beyond : limit ≤ (stream r).bytes.length
    · rw [if_pos beyond] at failed
      cases failed
    · rw [if_neg beyond] at failed
      have short : (stream r).bytes.length < limit := Nat.not_le.mp beyond
      change delim ∉ (stream r).bytes.take limit at absent
      rw [List.take_of_length_le (Nat.le_of_lt short)] at absent
      exact .failed e part later absent short failed

/-! ### Lines of text -/

def LF : UInt8 := 10

def from_utf8 (bytes : List UInt8) : Option String := String.fromUTF8? bytes.toByteArray

theorem bytes_of_from_utf8 {bytes : List UInt8} {text : String} (decoded : from_utf8 bytes = some text) :
    bytes = text.toList.flatMap String.utf8EncodeChar := by
  unfold from_utf8 String.fromUTF8? at decoded
  by_cases valid : bytes.toByteArray.IsValidUTF8
  · rw [dif_pos valid] at decoded
    cases decoded
    have same : (String.fromUTF8 bytes.toByteArray valid).toList.utf8Encode = bytes.toByteArray := String.utf8Encode_toList
    have data := congrArg (fun b => b.data.toList) same
    simp only [List.utf8Encode,List.toList_data_toByteArray] at data
    exact data.symm
  · rw [dif_neg valid] at decoded
    cases decoded

/-- No character but the newline has a last byte that is one: the other bytes of UTF-8 are high. -/
theorem last_of_char (c : Char) : (String.utf8EncodeChar c).getLast? = some LF ↔ c = '\n' := by
  have one : c = '\n' ↔ c.val.toNat = 10 := by
    rw [Char.ext_iff,← UInt32.toNat_inj]
    rfl
  have low : ∀ n : Nat, UInt8.ofNat n = LF ↔ n % 256 = 10 := by
    intro n
    rw [← UInt8.toNat_inj,UInt8.toNat_ofNat']
    rfl
  rw [one]
  unfold String.utf8EncodeChar
  generalize c.val.toNat = v
  dsimp only
  split
  · rw [List.getLast?_singleton,Option.some.injEq,low]
    omega
  · split
    · rw [List.getLast?_cons_cons,List.getLast?_singleton,Option.some.injEq,low]
      omega
    · split
      · rw [List.getLast?_cons_cons,List.getLast?_cons_cons,List.getLast?_singleton,Option.some.injEq,low]
        omega
      · rw [List.getLast?_cons_cons,List.getLast?_cons_cons,List.getLast?_cons_cons,List.getLast?_singleton,Option.some.injEq,low]
        omega

/-- A text ends with a newline when its bytes do. -/
theorem ends_with_newline {bytes : List UInt8} {text : String} (decoded : from_utf8 bytes = some text) :
    text.toList.getLast? = some '\n' ↔ bytes.getLast? = some LF := by
  rw [bytes_of_from_utf8 decoded]
  cases text.toList using List.reverseRecOn with
  | nil => simp
  | append_singleton front c =>
    rw [List.flatMap_append,List.flatMap_singleton,List.getLast?_append_of_ne_nil _ String.utf8EncodeChar_ne_nil,last_of_char,
      List.getLast?_append_of_ne_nil _ (List.cons_ne_nil c []),List.getLast?_singleton,Option.some.injEq]

/-- A line is appended to the text if it is text itself. Its bytes are consumed in any case. -/
def read_line (r : ρ) (text : String) : Except ErrorKind Nat × String × ρ :=
  let (ret,appended,later) := read_until LF r [] 0
  match from_utf8 appended with
  | some line => (ret,text ++ line,later)
  | none => (ret.bind fun _ => .error .InvalidData,text,later)

/-- A line read behind a limit: text, other bytes, or an error of the source. The bytes are those
    of the line up to the limit. -/
inductive ReadsLine (s : Stream) (limit : Nat) (text : String) : Except ErrorKind Nat × String × Take ρ → Prop where
  | line (line : String) (later : Take ρ) (decoded : from_utf8 ((upto LF s.bytes).take limit) = some line)
      (closed : LF ∈ s.bytes.take limit ∨ limit ≤ s.bytes.length ∨ s.failure = none)
      (rest : stream later.inner = s.drop ((upto LF s.bytes).take limit).length) :
      ReadsLine s limit text (.ok ((upto LF s.bytes).take limit).length,text ++ line,later)
  | invalid (later : Take ρ) (bad : from_utf8 ((upto LF s.bytes).take limit) = none) : ReadsLine s limit text (.error .InvalidData,text,later)
  | failed (e : ErrorKind) (line : String) (later : Take ρ) (absent : LF ∉ s.bytes) (failed : s.failure = some e) :
      ReadsLine s limit text (.error e,line,later)

theorem reads_line (r : ρ) (limit : Nat) (text : String) : ReadsLine (stream r) limit text (read_line (⟨r,limit⟩ : Take ρ) text) := by
  have reads := @reads_within ρ _ LF r limit
  unfold read_line
  generalize read_until LF (⟨r,limit⟩ : Take ρ) [] 0 = result at reads
  cases reads with
  | line later closed rest =>
    rw [← take_upto] at rest ⊢
    dsimp only
    cases decoded : from_utf8 ((upto LF (stream r).bytes).take limit) with
    | none => exact .invalid later decoded
    | some line => exact .line line later decoded closed rest
  | failed e part later absent short failed =>
    dsimp only
    cases from_utf8 part with
    | none => exact .failed e text later absent failed
    | some line => exact .failed e (text ++ line) later absent failed

end reading
end MemoryEngine.Readers
