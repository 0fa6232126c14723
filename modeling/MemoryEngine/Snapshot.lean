import MemoryEngine.Fingerprint
import MemoryEngine.Framing
import MemoryEngine.Query

/-! The snapshot file beside the database. Its parts are cut by hand from bytes that nobody
vouches for; a cut out of range and an overflow would be panics. -/

namespace MemoryEngine
open Framing Search

structure SnapshotHeader where
  format_version : Nat
  fingerprint : DbFingerprint
  embed_dim : Nat
  engine_version : String
deriving DecidableEq

structure HnswEntry where
  fact_id : FactId
  embedding : Embedding
deriving DecidableEq

/-- The edges of the graph, the nodes of the scope tree and the entries of the vector index,
    where there is one. -/
structure SnapshotPayload where
  graph : List GraphEdgeSnapshot
  scope_tree : List ScopeNode
  hnsw : Option (List HnswEntry)
deriving DecidableEq

namespace Snapshot

def FORMAT_VERSION : Nat := 2

def BLAKE3_LEN : Nat := 32

def MAX_SNAPSHOT_BYTES : Nat := 512 * 1024 * 1024

/-- How the serializer writes and reads one type. -/
structure Codec (α : Type) where
  to_vec_named : α → Except String (List UInt8)
  from_slice : List UInt8 → Except String α

/-- What is written can be read, and something is written. -/
structure Codec.RoundTrips {α : Type} (codec : Codec α) : Prop where
  back : ∀ a bytes, codec.to_vec_named a = .ok bytes → codec.from_slice bytes = .ok a
  nonempty : ∀ a, codec.to_vec_named a ≠ .ok []

/-- The serializer of the two parts, and the hash. -/
structure Libraries where
  header : Codec SnapshotHeader
  payload : Codec SnapshotPayload
  blake3 : List UInt8 → Vector UInt8 BLAKE3_LEN

variable (lib : Libraries)

/-- The bytes that are written to a temporary file and renamed to the path of the snapshot. -/
def write_to_file (header : SnapshotHeader) (payload : SnapshotPayload) : Except MemoryError (List UInt8) := do
  let header_bytes ← (lib.header.to_vec_named header).mapError fun e => MemoryError.Internal s!"snapshot header serialize: {e}"
  let payload_bytes ← (lib.payload.to_vec_named payload).mapError fun e => MemoryError.Internal s!"snapshot payload serialize: {e}"
  let checksum := lib.blake3 payload_bytes
  if header_bytes.length ≥ 2 ^ 32 then .error (.Internal "snapshot header too large") else
  return leBytes 4 header_bytes.length ++ (header_bytes ++ (payload_bytes ++ checksum.toList))

/-- What stands at the path. -/
inductive Sidecar where
  | missing
  | unreadable
  | not_a_file (len : Nat)
  | file (data : List UInt8)

inductive SizeGate where
  | Proceed
  | Reject
deriving DecidableEq

def size_gate (cap : Nat) : Sidecar → SizeGate
  | .missing => .Reject
  | .unreadable => .Reject
  | .not_a_file _ => .Reject
  | .file data => if data.length > cap then .Reject else .Proceed

/-- An addition of lengths, which panics beyond the word. -/
def checked_add (a b : Nat) : Option Nat := if a + b ≤ USIZE_MAX then some (a + b) else none

def checked_sub (a b : Nat) : Option Nat := if b ≤ a then some (a - b) else none

/-- The entry that is found when the widths of the vectors are checked. -/
def misfit (payload : SnapshotPayload) (embed_dim : Nat) : Option HnswEntry :=
  payload.hnsw.bind fun entries => entries.find? fun e => e.embedding.length ≠ embed_dim

/-- Read and check the bytes of a file. No result at all is a panic; `some none` is a snapshot
    that is not to be used. -/
def load_bytes (data : List UInt8) (embed_dim : Nat) : Option (Option (SnapshotHeader × SnapshotPayload)) :=
  if data.length < 4 + 1 + 1 + BLAKE3_LEN then some none else do
  let length_bytes ← slice data 0 4
  let header_end ← checked_add 4 (leValue length_bytes)
  if header_end ≥ data.length - BLAKE3_LEN then some none else
  let header_bytes ← slice data 4 header_end
  let payload_end ← checked_sub data.length BLAKE3_LEN
  let payload_bytes ← slice data header_end payload_end
  let stored_checksum ← slice data payload_end data.length
  match lib.header.from_slice header_bytes with
  | .error _ => some none
  | .ok header =>
    if header.format_version ≠ FORMAT_VERSION then some none else
    if header.embed_dim ≠ embed_dim then some none else
    if (lib.blake3 payload_bytes).toList ≠ stored_checksum then some none else
    match lib.payload.from_slice payload_bytes with
    | .error _ => some none
    | .ok payload =>
      match misfit payload embed_dim with
      | some _ => some none
      | none => some (some (header,payload))

def load_from_file (sidecar : Sidecar) (embed_dim : Nat) : Option (Option (SnapshotHeader × SnapshotPayload)) :=
  if size_gate MAX_SNAPSHOT_BYTES sidecar = .Reject then some none else
  match sidecar with
  | .file data => load_bytes lib data embed_dim
  | _ => some none

/-- The parts of a file: each follows from the one before it, and the length of the header is
    what the first four bytes say. -/
structure Framed (data header_bytes payload_bytes checksum : List UInt8) : Prop where
  whole : data = leBytes 4 header_bytes.length ++ (header_bytes ++ (payload_bytes ++ checksum))
  short : header_bytes.length < 2 ^ 32
  payload : payload_bytes ≠ []
  checksum : checksum.length = BLAKE3_LEN

/-- Every vector of the index has the width. -/
def Sized (payload : SnapshotPayload) (embed_dim : Nat) : Prop :=
  ∀ entries ∈ payload.hnsw, ∀ e ∈ entries, e.embedding.length = embed_dim

theorem misfit_eq_none {payload : SnapshotPayload} {embed_dim : Nat} : misfit payload embed_dim = none ↔ Sized payload embed_dim := by
  unfold misfit Sized
  cases payload.hnsw with
  | none => simp
  | some entries => simp [List.find?_eq_none]

/-- Bytes that pass the two tests of the length are framed, with at least one byte more than
    a header of no bytes needs. -/
theorem framed_of_bounds {data : List UInt8} (long : ¬ data.length < 4 + 1 + 1 + BLAKE3_LEN)
    (inside : ¬ 4 + leValue (data.take 4) ≥ data.length - BLAKE3_LEN) :
    Framed data ((data.take (4 + leValue (data.take 4))).drop 4)
      ((data.take (data.length - BLAKE3_LEN)).drop (4 + leValue (data.take 4))) (data.drop (data.length - BLAKE3_LEN)) := by
  unfold BLAKE3_LEN at long inside ⊢
  have four : (data.take 4).length = 4 := by
    rw [List.length_take]
    omega
  have small := leValue_lt (data.take 4)
  rw [four] at small
  generalize size : leValue (data.take 4) = header_len at inside small ⊢
  have header : ((data.take (4 + header_len)).drop 4).length = header_len := by
    rw [List.length_drop,List.length_take]
    omega
  refine ⟨?_,?_,fun empty => ?_,?_⟩
  · have first : leBytes 4 header_len = data.take 4 := by
      have back := leBytes_leValue (data.take 4)
      rwa [four,size] at back
    have rest := cut data (Nat.le_add_right 4 header_len)
    have last := cut data (Nat.le_of_not_ge inside)
    have middle : data.drop (4 + header_len) =
        (data.take (data.length - 32)).drop (4 + header_len) ++ data.drop (data.length - 32) := by
      have dropped := congrArg (List.drop (4 + header_len)) last
      rwa [List.drop_left' (by rw [List.length_take]; omega)] at dropped
    rw [header,first,← middle]
    exact rest
  · rw [header]
    omega
  · have length := congrArg List.length empty
    rw [List.length_drop,List.length_take,List.length_nil] at length
    omega
  · rw [List.length_drop]
    unfold BLAKE3_LEN
    omega

/-- What the checks come to once the bytes are cut. -/
def judge (embed_dim : Nat) (header_bytes payload_bytes checksum : List UInt8) : Option (SnapshotHeader × SnapshotPayload) :=
  match lib.header.from_slice header_bytes with
  | .error _ => none
  | .ok header =>
    if header.format_version ≠ FORMAT_VERSION then none else
    if header.embed_dim ≠ embed_dim then none else
    if (lib.blake3 payload_bytes).toList ≠ checksum then none else
    match lib.payload.from_slice payload_bytes with
    | .error _ => none
    | .ok payload =>
      match misfit payload embed_dim with
      | some _ => none
      | none => some (header,payload)

/-- Every slice is in range: the bytes are judged by their parts, or refused by their length. -/
theorem load_bytes_eq (data : List UInt8) (embed_dim : Nat) : load_bytes lib data embed_dim = some
    (if data.length < 4 + 1 + 1 + BLAKE3_LEN then none else
      if 4 + leValue (data.take 4) ≥ data.length - BLAKE3_LEN then none else
        judge lib embed_dim ((data.take (4 + leValue (data.take 4))).drop 4)
          ((data.take (data.length - BLAKE3_LEN)).drop (4 + leValue (data.take 4))) (data.drop (data.length - BLAKE3_LEN))) := by
  unfold load_bytes
  by_cases short : data.length < 4 + 1 + 1 + BLAKE3_LEN
  · rw [if_pos short,if_pos short]
  rw [if_neg short,if_neg short]
  have four : slice data 0 4 = some (data.take 4) := by
    rw [slice_inside (by omega) (by unfold BLAKE3_LEN at short; omega),List.drop_zero]
  have small := leValue_lt (data.take 4)
  have length : (data.take 4).length = 4 := by
    rw [List.length_take]
    unfold BLAKE3_LEN at short
    omega
  rw [length] at small
  have added : checked_add 4 (leValue (data.take 4)) = some (4 + leValue (data.take 4)) := by
    refine if_pos ?_
    unfold USIZE_MAX
    omega
  simp only [four,added,bind,Option.bind_some]
  by_cases outside : 4 + leValue (data.take 4) ≥ data.length - BLAKE3_LEN
  · rw [if_pos outside,if_pos outside]
  rw [if_neg outside,if_neg outside]
  have header : slice data 4 (4 + leValue (data.take 4)) = some ((data.take (4 + leValue (data.take 4))).drop 4) :=
    slice_inside (by omega) (by omega)
  have ended : checked_sub data.length BLAKE3_LEN = some (data.length - BLAKE3_LEN) := by
    refine if_pos ?_
    unfold BLAKE3_LEN at short ⊢
    omega
  have payload : slice data (4 + leValue (data.take 4)) (data.length - BLAKE3_LEN) =
      some ((data.take (data.length - BLAKE3_LEN)).drop (4 + leValue (data.take 4))) := slice_inside (by omega) (by omega)
  have checksum : slice data (data.length - BLAKE3_LEN) data.length = some (data.drop (data.length - BLAKE3_LEN)) := by
    rw [slice_inside (by omega) (Nat.le_refl _),List.take_length]
  simp only [header,ended,payload,checksum,Option.bind_some]
  unfold judge
  split
  · rfl
  · split_ifs
    · rfl
    · rfl
    · rfl
    · split
      · rfl
      · split <;> rfl

variable {lib}

/-- The parts of a framed file are the ones its length field and its length lead to. -/
theorem load_framed {data header_bytes payload_bytes checksum : List UInt8} (framed : Framed data header_bytes payload_bytes checksum)
    (embed_dim : Nat) : load_bytes lib data embed_dim = some (if data.length < 4 + 1 + 1 + BLAKE3_LEN then none else
      judge lib embed_dim header_bytes payload_bytes checksum) := by
  have value : leValue (leBytes 4 header_bytes.length) = header_bytes.length := leValue_leBytes (by simpa using framed.short)
  have length : data.length = 4 + (header_bytes.length + (payload_bytes.length + BLAKE3_LEN)) := by
    rw [framed.whole]
    simp only [List.length_append,length_leBytes,framed.checksum]
  have first : data.take 4 = leBytes 4 header_bytes.length := by
    rw [framed.whole]
    exact List.take_left' (length_leBytes 4 _)
  have payload := List.length_pos_of_ne_nil framed.payload
  have inside : ¬ 4 + header_bytes.length ≥ data.length - BLAKE3_LEN := by omega
  have header : (data.take (4 + header_bytes.length)).drop 4 = header_bytes := by
    have cut : slice data 4 (4 + header_bytes.length) = some header_bytes := by
      have middle := slice_middle (leBytes 4 header_bytes.length) header_bytes (payload_bytes ++ checksum)
      rwa [length_leBytes,← framed.whole] at middle
    rw [slice_inside (by omega) (by omega)] at cut
    exact Option.some.inj cut
  have body : (data.take (data.length - BLAKE3_LEN)).drop (4 + header_bytes.length) = payload_bytes := by
    have cut : slice data (4 + header_bytes.length) (4 + header_bytes.length + payload_bytes.length) = some payload_bytes := by
      have middle := slice_middle (leBytes 4 header_bytes.length ++ header_bytes) payload_bytes checksum
      rwa [List.length_append,length_leBytes,List.append_assoc,← framed.whole] at middle
    have stop : data.length - BLAKE3_LEN = 4 + header_bytes.length + payload_bytes.length := by omega
    rw [slice_inside (by omega) (by omega)] at cut
    rw [stop]
    exact Option.some.inj cut
  have last : data.drop (data.length - BLAKE3_LEN) = checksum := by
    have stop : data.length - BLAKE3_LEN = (leBytes 4 header_bytes.length ++ (header_bytes ++ payload_bytes)).length := by
      simp only [List.length_append,length_leBytes]
      omega
    have whole : data = (leBytes 4 header_bytes.length ++ (header_bytes ++ payload_bytes)) ++ checksum := by
      rw [framed.whole]
      simp
    rw [stop]
    nth_rewrite 1 [whole]
    exact List.drop_left' rfl
  rw [load_bytes_eq,first,value,if_neg inside,header,body,last]

theorem judge_eq_some {embed_dim : Nat} {header_bytes payload_bytes checksum : List UInt8} {header : SnapshotHeader} {payload : SnapshotPayload} :
    judge lib embed_dim header_bytes payload_bytes checksum = some (header,payload) ↔
      lib.header.from_slice header_bytes = .ok header ∧ header.format_version = FORMAT_VERSION ∧ header.embed_dim = embed_dim ∧
        (lib.blake3 payload_bytes).toList = checksum ∧ lib.payload.from_slice payload_bytes = .ok payload ∧ Sized payload embed_dim := by
  unfold judge
  cases read : lib.header.from_slice header_bytes with
  | error _ => simp
  | ok header' =>
    simp only []
    split_ifs with version dim sum
    · simp only [Except.ok.injEq,false_iff]
      rintro ⟨rfl,same,_⟩
      exact version same
    · simp only [Except.ok.injEq,false_iff]
      rintro ⟨rfl,_,same,_⟩
      exact dim same
    · simp only [Except.ok.injEq,false_iff]
      rintro ⟨rfl,_,_,same,_⟩
      exact sum same
    · rw [not_not] at version dim sum
      cases read' : lib.payload.from_slice payload_bytes with
      | error _ => simp
      | ok payload' =>
        simp only []
        rw [← misfit_eq_none]
        cases fits : misfit payload' embed_dim with
        | some _ =>
          simp only [reduceCtorEq,Except.ok.injEq,false_iff]
          rintro ⟨_,_,_,_,rfl,same⟩
          rw [fits] at same
          cases same
        | none =>
          simp only [Option.some.injEq,Prod.mk.injEq,Except.ok.injEq]
          constructor
          · rintro ⟨rfl,rfl⟩
            exact ⟨rfl,version,dim,sum,rfl,fits⟩
          · rintro ⟨rfl,_,_,_,rfl,_⟩
            exact ⟨rfl,rfl⟩

theorem write_to_file_ok {header : SnapshotHeader} {payload : SnapshotPayload} {header_bytes payload_bytes : List UInt8}
    (first : lib.header.to_vec_named header = .ok header_bytes) (second : lib.payload.to_vec_named payload = .ok payload_bytes)
    (short : header_bytes.length < 2 ^ 32) : write_to_file lib header payload =
      .ok (leBytes 4 header_bytes.length ++ (header_bytes ++ (payload_bytes ++ (lib.blake3 payload_bytes).toList))) := by
  rw [write_to_file,first,second]
  exact if_neg (Nat.not_le.mpr short)

/-- A written file is framed. -/
theorem framed_of_write (headers : lib.header.RoundTrips) (payloads : lib.payload.RoundTrips) {header : SnapshotHeader}
    {payload : SnapshotPayload} {data : List UInt8} (written : write_to_file lib header payload = .ok data) :
    ∃ header_bytes payload_bytes, Framed data header_bytes payload_bytes (lib.blake3 payload_bytes).toList ∧ header_bytes ≠ [] ∧
      lib.header.from_slice header_bytes = .ok header ∧ lib.payload.from_slice payload_bytes = .ok payload := by
  unfold write_to_file at written
  cases first : lib.header.to_vec_named header with
  | error _ =>
    rw [first] at written
    cases written
  | ok header_bytes =>
    cases second : lib.payload.to_vec_named payload with
    | error _ =>
      rw [first,second] at written
      cases written
    | ok payload_bytes =>
      rw [first,second] at written
      have packed : (if header_bytes.length ≥ 2 ^ 32 then Except.error (MemoryError.Internal "snapshot header too large") else
          .ok (leBytes 4 header_bytes.length ++ (header_bytes ++ (payload_bytes ++ (lib.blake3 payload_bytes).toList)))) = .ok data := written
      split at packed
      · cases packed
      · rename_i short
        cases packed
        refine ⟨header_bytes,payload_bytes,⟨rfl,Nat.lt_of_not_ge short,?_,by simp⟩,?_,headers.back _ _ first,payloads.back _ _ second⟩
        · rintro rfl
          exact payloads.nonempty payload second
        · rintro rfl
          exact headers.nonempty header first

/-- A written file is loaded as it was, where its size allows. -/
theorem load_written (headers : lib.header.RoundTrips) (payloads : lib.payload.RoundTrips) {header : SnapshotHeader} {payload : SnapshotPayload}
    {data : List UInt8} (version : header.format_version = FORMAT_VERSION) (sized : Sized payload header.embed_dim)
    (written : write_to_file lib header payload = .ok data) (small : data.length ≤ MAX_SNAPSHOT_BYTES) :
    load_from_file lib (.file data) header.embed_dim = some (some (header,payload)) := by
  obtain ⟨header_bytes,payload_bytes,framed,some_,first,second⟩ := framed_of_write headers payloads written
  have long : ¬ data.length < 4 + 1 + 1 + BLAKE3_LEN := by
    have one := List.length_pos_of_ne_nil some_
    have two := List.length_pos_of_ne_nil framed.payload
    rw [framed.whole]
    simp only [List.length_append,length_leBytes,framed.checksum]
    omega
  have gate : size_gate MAX_SNAPSHOT_BYTES (.file data) = .Proceed := if_neg (Nat.not_lt.mpr small)
  rw [load_from_file,gate,if_neg (by decide),load_framed framed,if_neg long]
  exact congrArg some (judge_eq_some.mpr ⟨first,version,rfl,rfl,second,sized⟩)

/-- What is loaded from a written file is what was written. -/
theorem loaded_of_written (headers : lib.header.RoundTrips) (payloads : lib.payload.RoundTrips) {header header' : SnapshotHeader}
    {payload payload' : SnapshotPayload} {data : List UInt8} {embed_dim : Nat} (written : write_to_file lib header payload = .ok data)
    (loaded : load_from_file lib (.file data) embed_dim = some (some (header',payload'))) : header' = header ∧ payload' = payload := by
  obtain ⟨header_bytes,payload_bytes,framed,_,first,second⟩ := framed_of_write headers payloads written
  unfold load_from_file at loaded
  split at loaded
  · cases loaded
  · simp only [] at loaded
    rw [load_framed framed] at loaded
    split at loaded
    · cases loaded
    · obtain ⟨first',_,_,_,second',_⟩ := judge_eq_some.mp (Option.some.inj loaded)
      rw [first] at first'
      rw [second] at second'
      exact ⟨(Except.ok.inj first').symm,(Except.ok.inj second').symm⟩

/-- What is loaded is framed and has passed every check. -/
theorem framed_of_loaded {data : List UInt8} {embed_dim : Nat} {header : SnapshotHeader} {payload : SnapshotPayload}
    (loaded : load_from_file lib (.file data) embed_dim = some (some (header,payload))) :
    ∃ header_bytes payload_bytes checksum, Framed data header_bytes payload_bytes checksum ∧
      lib.header.from_slice header_bytes = .ok header ∧ header.format_version = FORMAT_VERSION ∧ header.embed_dim = embed_dim ∧
      (lib.blake3 payload_bytes).toList = checksum ∧ lib.payload.from_slice payload_bytes = .ok payload ∧ Sized payload embed_dim := by
  unfold load_from_file at loaded
  split at loaded
  · cases loaded
  · simp only [] at loaded
    rw [load_bytes_eq] at loaded
    split at loaded
    · cases loaded
    · rename_i long
      split at loaded
      · cases loaded
      · rename_i inside
        exact ⟨_,_,_,framed_of_bounds long inside,judge_eq_some.mp (Option.some.inj loaded)⟩

theorem width_of_loaded {sidecar : Sidecar} {embed_dim : Nat} {header : SnapshotHeader} {payload : SnapshotPayload}
    (loaded : load_from_file lib sidecar embed_dim = some (some (header,payload))) : header.embed_dim = embed_dim := by
  cases sidecar with
  | file data =>
    obtain ⟨_,_,_,_,_,_,width,_⟩ := framed_of_loaded loaded
    exact width
  | _ => cases loaded

/-- A written snapshot is loaded as it was, and bytes of any origin are loaded without a panic,
    to a result only if they are framed and pass every check. -/
theorem snapshot_file (headers : lib.header.RoundTrips) (payloads : lib.payload.RoundTrips) :
    (∀ header payload data, header.format_version = FORMAT_VERSION → Sized payload header.embed_dim →
        write_to_file lib header payload = .ok data → data.length ≤ MAX_SNAPSHOT_BYTES →
        load_from_file lib (.file data) header.embed_dim = some (some (header,payload))) ∧
      (∀ sidecar embed_dim, ∃ loaded, load_from_file lib sidecar embed_dim = some loaded) ∧
      ∀ data embed_dim header payload, load_from_file lib (.file data) embed_dim = some (some (header,payload)) →
        ∃ header_bytes payload_bytes checksum, Framed data header_bytes payload_bytes checksum ∧
          lib.header.from_slice header_bytes = .ok header ∧ header.format_version = FORMAT_VERSION ∧ header.embed_dim = embed_dim ∧
          (lib.blake3 payload_bytes).toList = checksum ∧ lib.payload.from_slice payload_bytes = .ok payload ∧ Sized payload embed_dim := by
  refine ⟨fun header payload data version sized written small => load_written headers payloads version sized written small,
    fun sidecar embed_dim => ?_,fun _ _ _ _ => framed_of_loaded⟩
  unfold load_from_file
  split
  · exact ⟨_,rfl⟩
  · split
    · exact ⟨_,load_bytes_eq lib _ _⟩
    · exact ⟨_,rfl⟩

end Snapshot

namespace Sample
open Snapshot

/-- A short ASCII string in MessagePack. -/
def fixstr (text : String) : List UInt8 := UInt8.ofNat (0xA0 + text.toList.length) :: text.toList.map fun c => UInt8.ofNat c.toNat

def snapshotHeader : SnapshotHeader := ⟨FORMAT_VERSION,⟨1,1,0,0,1,1⟩,1,""⟩

def snapshotPayload : SnapshotPayload := ⟨[],[],some [⟨1,[0]⟩]⟩

/-- The header as a map of named fields. -/
def headerBytes : List UInt8 :=
  [0x84] ++ fixstr "format_version" ++ [2] ++ fixstr "fingerprint" ++ [0x86] ++ fixstr "max_fact_id" ++ [1] ++
    fixstr "active_fact_count" ++ [1] ++ fixstr "max_edge_id" ++ [0] ++ fixstr "active_edge_count" ++ [0] ++
    fixstr "max_scope_id" ++ [1] ++ fixstr "scope_count" ++ [1] ++ fixstr "embed_dim" ++ [1] ++ fixstr "engine_version" ++ fixstr ""

def payloadBytes : List UInt8 :=
  [0x83] ++ fixstr "graph" ++ [0x81] ++ fixstr "edges" ++ [0x90] ++ fixstr "scope_tree" ++ [0x81] ++ fixstr "nodes" ++ [0x90] ++
    fixstr "hnsw" ++ [0x81] ++ fixstr "entries" ++ [0x91,0x82] ++ fixstr "fact_id" ++ [1] ++ fixstr "embedding" ++ [0x91,0xCA,0,0,0,0]

/-- The serializer at one value. -/
def codecAt {α : Type} [DecidableEq α] (a : α) (bytes : List UInt8) : Codec α where
  to_vec_named b := if b = a then .ok bytes else .error "not serialized here"
  from_slice given := if given = bytes then .ok a else .error "not deserialized here"

theorem codecAt_roundTrips {α : Type} [DecidableEq α] (a : α) {bytes : List UInt8} (some_ : bytes ≠ []) : (codecAt a bytes).RoundTrips := by
  refine ⟨fun b given written => ?_,fun b written => ?_⟩
  · simp only [codecAt] at written ⊢
    split at written
    · rename_i same
      cases written
      rw [if_pos rfl,same]
    · cases written
  · simp only [codecAt] at written
    split at written
    · exact some_ (Except.ok.inj written)
    · cases written

def snapshotLibraries : Libraries where
  header := codecAt snapshotHeader headerBytes
  payload := codecAt snapshotPayload payloadBytes
  blake3 _ := #v[237,219,154,70,26,231,165,128,19,179,197,163,163,146,162,229,79,147,181,19,35,233,166,147,20,209,197,16,245,78,137,50]

end Sample

namespace Snapshot

theorem snapshot_file_sample : ∃ data, write_to_file Sample.snapshotLibraries Sample.snapshotHeader Sample.snapshotPayload = .ok data ∧
    load_from_file Sample.snapshotLibraries (.file data) Sample.snapshotHeader.embed_dim =
      some (some (Sample.snapshotHeader,Sample.snapshotPayload)) := by
  have headers : Sample.snapshotLibraries.header.RoundTrips := Sample.codecAt_roundTrips _ (List.cons_ne_nil _ _)
  have payloads : Sample.snapshotLibraries.payload.RoundTrips := Sample.codecAt_roundTrips _ (List.cons_ne_nil _ _)
  have short : Sample.headerBytes.length = 148 := by decide +kernel
  have small : Sample.payloadBytes.length = 75 := by decide +kernel
  have first : Sample.snapshotLibraries.header.to_vec_named Sample.snapshotHeader = .ok Sample.headerBytes := by
    simp [Sample.snapshotLibraries,Sample.codecAt]
  have second : Sample.snapshotLibraries.payload.to_vec_named Sample.snapshotPayload = .ok Sample.payloadBytes := by
    simp [Sample.snapshotLibraries,Sample.codecAt]
  have written := write_to_file_ok first second (by rw [short]; decide)
  have sized : Sized Sample.snapshotPayload Sample.snapshotHeader.embed_dim := by
    rintro entries ⟨⟩ e member
    rw [List.mem_singleton.mp member]
    rfl
  have loaded := (snapshot_file headers payloads).1 _ _ _ rfl sized written
  refine ⟨_,written,loaded ?_⟩
  rw [List.length_append,List.length_append,List.length_append,length_leBytes,short,small,Vector.length_toList]
  decide

end Snapshot
end MemoryEngine
