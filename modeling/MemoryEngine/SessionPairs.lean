import MemoryEngine.SessionTurns

/-! The exchanges behind the turns. `reconstruct_turns` looks assistants and tool results up in
two indexes by parent; the reference scans the entries each time, and keeps who answered whom. -/

namespace MemoryEngine.Session
open Time

/-! ## The reference -/

structure Exchange where
  user : SessionEntry
  assistant : SessionEntry

def relevantOf (entries : List SessionEntry) : List SessionEntry :=
  entries.filter fun e => e.entry_type == .User || e.entry_type == .Assistant

/-- The entry names this parent. The empty uuid is no parent. -/
def childOf (parent : String) (e : SessionEntry) : Bool := parent != "" && e.parent_uuid == some parent

def isAnswer (e : SessionEntry) : Bool := e.entry_type == .Assistant

def isResult (e : SessionEntry) : Bool := e.entry_type == .User && is_tool_result e

section scans
variable (relevant : List SessionEntry)

def resultsOf (assistant : SessionEntry) : List SessionEntry :=
  match assistant.uuid with
  | some assistant_uuid => relevant.filter fun e => isResult e && childOf assistant_uuid e
  | none => []

/-- The uuids that an exchange takes: its two entries' and those of the tool results. -/
def Exchange.uuids (x : Exchange) : List String :=
  x.user.uuid.toList ++ x.assistant.uuid.toList ++ (resultsOf relevant x.assistant).filterMap SessionEntry.uuid

def taken (exchanges : List Exchange) (uuid : String) : Bool := (exchanges.flatMap (Exchange.uuids relevant)).contains uuid

def available (exchanges : List Exchange) (a : SessionEntry) : Bool :=
  isAnswer a && a.uuid.any fun u => !taken relevant exchanges u

/-- A prompt and the first available assistant below it, among all entries. -/
def linkScan (exchanges : List Exchange) (entry : SessionEntry) : List Exchange :=
  match isPrompt entry,entry.uuid with
  | true,some user_uuid =>
    if taken relevant exchanges user_uuid then exchanges else
      match relevant.find? fun a => childOf user_uuid a && available relevant exchanges a with
      | some assistant => exchanges ++ [⟨entry,assistant⟩]
      | none => exchanges
  | _,_ => exchanges

/-- A prompt that is in no exchange and the next available assistant before another prompt. -/
def fallbackScan (exchanges : List Exchange) : List SessionEntry → List Exchange
  | [] => exchanges
  | entry :: rest =>
    let entry_uuid := entry.uuid.getD ""
    let exchanges := if isPrompt entry && entry_uuid != "" && !taken relevant exchanges entry_uuid then
        match (rest.takeWhile fun e => !isPrompt e).find? (available relevant exchanges) with
        | some assistant => exchanges ++ [⟨entry,assistant⟩]
        | none => exchanges
      else exchanges
    fallbackScan exchanges rest

def Exchange.turn (libraries : TurnLibraries) (x : Exchange) : ConversationTurn :=
  build_turn libraries x.user x.assistant (resultsOf relevant x.assistant)

end scans

def exchangesOf (entries : List SessionEntry) : List Exchange :=
  let relevant := relevantOf entries
  fallbackScan relevant (relevant.foldl (linkScan relevant) []) relevant

/-- The turns of the exchanges, by time. -/
def scanned_turns (libraries : TurnLibraries) (entries : List SessionEntry) : List ConversationTurn :=
  ((exchangesOf entries).map (Exchange.turn (relevantOf entries) libraries)).insertionSort fun a b => a.timestamp ≤ b.timestamp

/-! ## The indexes -/

theorem ParentIndex.push_at (index : ParentIndex) (entry : SessionEntry) (key : String) :
    index.push entry key = index key ++ [entry].filter (childOf key) := by
  unfold ParentIndex.push
  cases named : entry.parent_uuid with
  | none => simp [childOf,named]
  | some parent =>
    by_cases empty : parent = ""
    · by_cases same : key = ""
      · simp [childOf,empty,same]
      · have other : ¬ "" = key := fun eq => same eq.symm
        simp [childOf,named,empty,other]
    · by_cases same : key = parent
      · simp [childOf,named,empty,same]
      · have other : ¬ parent = key := fun eq => same eq.symm
        simp [childOf,named,empty,same,other]

/-- What an index has under a parent is what a scan for the parent finds. -/
theorem indices_at (relevant : List SessionEntry) (key : String) :
    (indices relevant).1 key = relevant.filter (fun e => isAnswer e && childOf key e) ∧
      (indices relevant).2 key = relevant.filter (fun e => isResult e && childOf key e) := by
  unfold indices
  induction relevant using List.reverseRecOn with
  | nil => exact ⟨rfl,rfl⟩
  | append_singleton rest entry ih =>
    rw [List.foldl_append,List.foldl_cons,List.foldl_nil,List.filter_append,List.filter_append,← ih.1,← ih.2]
    by_cases answer : entry.entry_type = .Assistant
    · rw [if_pos answer]
      simp only [ParentIndex.push_at]
      constructor
      · exact congrArg _ (List.filter_congr fun e member => by simp [isAnswer,List.mem_singleton.mp member,answer])
      · simp [isResult,answer]
    · rw [if_neg answer]
      by_cases result : entry.entry_type = .User ∧ is_tool_result entry = true
      · rw [if_pos result]
        simp only [ParentIndex.push_at]
        constructor
        · simp [isAnswer,result.1]
        · exact congrArg _ (List.filter_congr fun e member => by simp [isResult,List.mem_singleton.mp member,result.1,result.2])
      · rw [if_neg result]
        have other : isResult entry = false := by
          rw [isResult,Bool.and_eq_false_iff]
          by_cases user : entry.entry_type = .User
          · exact Or.inr (by simpa using fun tool => result ⟨user,tool⟩)
          · exact Or.inl (by simpa using user)
        simp [isAnswer,answer,other]

theorem collect_eq_results (relevant : List SessionEntry) (assistant : SessionEntry) :
    collect_tool_result_entries (indices relevant).2 assistant = resultsOf relevant assistant := by
  unfold collect_tool_result_entries resultsOf
  cases assistant.uuid with
  | none => rfl
  | some u => exact (indices_at relevant u).2

/-! ## The passes -/

section passes
variable {libraries : TurnLibraries} {relevant : List SessionEntry}

/-- The pairing has the uuids and the turns of the exchanges. -/
structure Pairing.Follows (libraries : TurnLibraries) (relevant : List SessionEntry) (pairing : Pairing)
    (exchanges : List Exchange) : Prop where
  used : pairing.used = exchanges.flatMap (Exchange.uuids relevant)
  turns : pairing.turns = exchanges.map (Exchange.turn relevant libraries)

/-- No uuid is the user of two exchanges, or the assistant of two. -/
structure Distinct (exchanges : List Exchange) : Prop where
  users : (exchanges.filterMap fun x => x.user.uuid).Nodup
  assistants : (exchanges.filterMap fun x => x.assistant.uuid).Nodup

theorem Pairing.Follows.contains {pairing : Pairing} {exchanges : List Exchange} (follows : pairing.Follows libraries relevant exchanges)
    (u : String) : pairing.used.contains u = taken relevant exchanges u := by
  rw [follows.used,taken]

theorem Pairing.Follows.free {pairing : Pairing} {exchanges : List Exchange} (follows : pairing.Follows libraries relevant exchanges)
    (a : SessionEntry) : (isAnswer a && pairing.free a) = available relevant exchanges a := by
  unfold Pairing.free available
  simp only [follows.contains]

theorem Pairing.Follows.pair {pairing : Pairing} {exchanges : List Exchange} (follows : pairing.Follows libraries relevant exchanges)
    {user assistant : SessionEntry} {user_uuid : String} (named : user.uuid = some user_uuid) :
    (pairing.pair libraries (indices relevant).2 user_uuid user assistant).Follows libraries relevant (exchanges ++ [⟨user,assistant⟩]) := by
  constructor
  · simp [Pairing.pair,collect_eq_results,follows.used,Exchange.uuids,named]
  · simp [Pairing.pair,collect_eq_results,follows.turns,Exchange.turn]

theorem nodup_filterMap_snoc {α β : Type} {f : α → Option β} {l : List α} {x : α} {v : β} (nodup : (l.filterMap f).Nodup)
    (value : f x = some v) (fresh : ∀ y ∈ l, f y ≠ some v) : ((l ++ [x]).filterMap f).Nodup := by
  rw [List.filterMap_append,List.filterMap_cons_some value,List.filterMap_nil,← List.concat_eq_append]
  refine List.Nodup.concat (fun old => ?_) nodup
  obtain ⟨y,member,here⟩ := List.mem_filterMap.mp old
  exact fresh y member here

/-- The uuids of the entries of an exchange are taken from then on. -/
theorem Distinct.pair {exchanges : List Exchange} (distinct : Distinct exchanges) {user assistant : SessionEntry} {user_uuid : String}
    (named : user.uuid = some user_uuid) (unused : taken relevant exchanges user_uuid = false)
    (open_ : available relevant exchanges assistant = true) : Distinct (exchanges ++ [⟨user,assistant⟩]) := by
  have untaken : ∀ {u : String}, taken relevant exchanges u = false → ∀ x ∈ exchanges, x.user.uuid ≠ some u ∧ x.assistant.uuid ≠ some u := by
    intro u free x member
    have outside : u ∉ x.uuids relevant := fun inside => by
      have present : u ∈ exchanges.flatMap (Exchange.uuids relevant) := List.mem_flatMap.mpr ⟨x,member,inside⟩
      rw [taken,List.contains_eq_mem,decide_eq_false_iff_not] at free
      exact free present
    constructor <;> intro same <;> exact outside (by simp [Exchange.uuids,same])
  obtain ⟨_,uuid⟩ := Bool.and_eq_true_iff.mp open_
  obtain ⟨assistant_uuid,answered,free⟩ := (Option.any_eq_true ..).mp uuid
  have free : taken relevant exchanges assistant_uuid = false := by simpa using free
  exact ⟨nodup_filterMap_snoc distinct.users named fun x member => (untaken unused x member).1,
    nodup_filterMap_snoc distinct.assistants answered fun x member => (untaken free x member).2⟩

/-- The first free assistant of the index is the first available one of the entries. -/
theorem find_indexed {pairing : Pairing} {exchanges : List Exchange} (follows : pairing.Follows libraries relevant exchanges) (u : String) :
    ((indices relevant).1 u).find? pairing.free = relevant.find? fun a => childOf u a && available relevant exchanges a := by
  rw [(indices_at relevant u).1,List.find?_filter]
  congr 1
  funext a
  rw [← follows.free a]
  cases isAnswer a <;> cases childOf u a <;> cases pairing.free a <;> rfl

/-- A step of the linked pass is a step of the reference. -/
theorem linked_step {pairing : Pairing} {exchanges : List Exchange} (follows : pairing.Follows libraries relevant exchanges)
    (distinct : Distinct exchanges) (entry : SessionEntry) :
    (linked libraries (indices relevant) pairing entry).Follows libraries relevant (linkScan relevant exchanges entry) ∧
      Distinct (linkScan relevant exchanges entry) := by
  unfold linked linkScan
  cases isPrompt entry with
  | false => exact ⟨follows,distinct⟩
  | true =>
    cases named : entry.uuid with
    | none => exact ⟨follows,distinct⟩
    | some user_uuid =>
      simp only [follows.contains,find_indexed follows]
      cases unused : taken relevant exchanges user_uuid with
      | true => exact ⟨follows,distinct⟩
      | false =>
        cases found : relevant.find? (fun a => childOf user_uuid a && available relevant exchanges a) with
        | none => exact ⟨follows,distinct⟩
        | some assistant =>
          have chosen := List.find?_some found
          obtain ⟨_,open_⟩ := Bool.and_eq_true_iff.mp chosen
          exact ⟨follows.pair named,distinct.pair named unused open_⟩

theorem linked_pass {pairing : Pairing} {exchanges : List Exchange} (follows : pairing.Follows libraries relevant exchanges)
    (distinct : Distinct exchanges) (entries : List SessionEntry) :
    (entries.foldl (linked libraries (indices relevant)) pairing).Follows libraries relevant (entries.foldl (linkScan relevant) exchanges) ∧
      Distinct (entries.foldl (linkScan relevant) exchanges) := by
  induction entries generalizing pairing exchanges with
  | nil => exact ⟨follows,distinct⟩
  | cons entry rest ih =>
    obtain ⟨follows',distinct'⟩ := linked_step follows distinct entry
    exact ih follows' distinct'

theorem sequential_pass {pairing : Pairing} {exchanges : List Exchange} (follows : pairing.Follows libraries relevant exchanges)
    (distinct : Distinct exchanges) (entries : List SessionEntry) :
    (sequential libraries (indices relevant) pairing entries).Follows libraries relevant (fallbackScan relevant exchanges entries) ∧
      Distinct (fallbackScan relevant exchanges entries) := by
  induction entries generalizing pairing exchanges with
  | nil => exact ⟨follows,distinct⟩
  | cons entry rest ih =>
    have agree : ∀ a, (a.entry_type == .Assistant && pairing.free a) = available relevant exchanges a := follows.free
    unfold sequential fallbackScan
    simp only [follows.contains,agree]
    cases open_ : isPrompt entry && entry.uuid.getD "" != "" && !taken relevant exchanges (entry.uuid.getD "") with
    | false => exact ih follows distinct
    | true =>
      obtain ⟨prompt,unused⟩ := Bool.and_eq_true_iff.mp open_
      obtain ⟨_,nonempty⟩ := Bool.and_eq_true_iff.mp prompt
      have named : entry.uuid = some (entry.uuid.getD "") := by
        cases uuid : entry.uuid with
        | none => simp [uuid] at nonempty
        | some u => rfl
      cases found : (rest.takeWhile fun e => !isPrompt e).find? (available relevant exchanges) with
      | none => exact ih follows distinct
      | some assistant =>
        exact ih (follows.pair named) (distinct.pair named (by simpa using unused) (List.find?_some found))

/-- The exchanges of a session are distinct, and its turns are theirs. -/
theorem session_exchanges (libraries : TurnLibraries) (entries : List SessionEntry) :
    reconstruct_turns libraries entries = scanned_turns libraries entries ∧ Distinct (exchangesOf entries) := by
  have start : (⟨[],[]⟩ : Pairing).Follows libraries (relevantOf entries) [] := ⟨rfl,rfl⟩
  obtain ⟨follows,distinct⟩ := linked_pass start ⟨List.nodup_nil,List.nodup_nil⟩ (relevantOf entries)
  obtain ⟨follows,distinct⟩ := sequential_pass follows distinct (relevantOf entries)
  exact ⟨congrArg _ follows.turns,distinct⟩

end passes

theorem count_le_one {α β : Type} [BEq β] [LawfulBEq β] {f : α → Option β} {l : List α} (nodup : (l.filterMap f).Nodup) (v : β) :
    l.countP (fun x => f x == some v) ≤ 1 := by
  have counted : l.countP (fun x => f x == some v) = (l.filterMap f).count v := by
    induction l with
    | nil => rfl
    | cons x rest ih =>
      cases value : f x with
      | none =>
        rw [List.filterMap_cons_none value] at nodup ⊢
        rw [List.countP_cons_of_neg (by simp [value]),ih nodup]
      | some w =>
        rw [List.filterMap_cons_some value] at nodup ⊢
        rw [List.countP_cons,List.count_cons,ih (List.nodup_cons.mp nodup).2,value]
        rfl
  rw [counted]
  exact List.nodup_iff_count_le_one.mp nodup v

/-- The two passes over the indexes build the turns of the exchanges that the scans find; a uuid
    that is not empty is the user of one turn at most, in the turns as in the exchanges, and
    the assistant of one; and the turns are in order of time. -/
theorem turns_of_scans (libraries : TurnLibraries) (entries : List SessionEntry) :
    reconstruct_turns libraries entries = scanned_turns libraries entries ∧
      (∀ u, u ≠ "" → (reconstruct_turns libraries entries).countP (fun t => t.uuid == u) ≤ 1 ∧
        (exchangesOf entries).countP (fun x => x.user.uuid == some u) ≤ 1 ∧
        (exchangesOf entries).countP (fun x => x.assistant.uuid == some u) ≤ 1) ∧
      (reconstruct_turns libraries entries).Pairwise fun a b => a.timestamp ≤ b.timestamp := by
  obtain ⟨same,distinct⟩ := session_exchanges libraries entries
  refine ⟨same,fun u nonempty => ⟨?_,count_le_one distinct.users u,count_le_one distinct.assistants u⟩,?_⟩
  · have users : (fun x : Exchange => (x.turn (relevantOf entries) libraries).uuid == u) = fun x => x.user.uuid == some u := by
      funext x
      change (x.user.uuid.getD "" == u) = _
      cases x.user.uuid with
      | none => simpa using fun eq : "" = u => nonempty eq.symm
      | some v => rfl
    rw [same,scanned_turns,(List.perm_insertionSort _ _).countP_eq,List.countP_map]
    exact (congrArg (fun p => List.countP p (exchangesOf entries)) users).trans_le (count_le_one distinct.users u)
  · rw [same]
    exact List.pairwise_insertionSort _ _

end MemoryEngine.Session
