import MemoryEngine.Activities
import MemoryEngine.TimeText
import MemoryEngine.Watermark
import Mathlib.Order.Bounds.Basic

/-! What the rows of the activity stream say about the calls folded into them, over
a whole run. The window test bounds only how much later than the row a call may be,
so a call from before the row was last seen is folded into it as well and sets its
last sighting back. Where no call is earlier than a row it can be folded into, each
row spans exactly its calls. -/

namespace MemoryEngine
open Time KeyedTable Transaction Ranking Ingest Activities

/-- What the calls counted by one row share. -/
structure ActivityKind where
  session_id : String
  tool_name : String
  args_hash : String
  outcome_class : String
  scope_id : Int
deriving DecidableEq

def Activity.kind (a : Activity) : ActivityKind := ⟨a.session_id,a.tool_name,a.args_hash,a.outcome_class.as_str,a.scope_id⟩

def NewActivity.kind (a : NewActivity) : ActivityKind := ⟨a.session_id,a.tool_name,a.args_hash,a.outcome_class.as_str,a.scope_id⟩

/-- A call that reached the store, and the row it was counted by. -/
structure StoredCall where
  activity : NewActivity
  dedup_window_secs : Int
  row : Int
  was_deduplicated : Bool

/-- The timestamps of the calls counted by a row. -/
def timestamps (log : List StoredCall) (row : Int) : Set DateTime := {ts | ∃ call ∈ log, call.row = row ∧ call.activity.timestamp = ts}

/-- The occurrences counted by all rows of one kind. -/
def occurrences (t : Tables) (kind : ActivityKind) : Int :=
  ((t.activities.rows.filter fun a => decide (a.kind = kind)).map Activity.occurrence_count).sum

/-- The rows and the calls so far agree. -/
structure Accounts (libraries : ActivityLibraries) (log : List StoredCall) (t : Tables) : Prop where
  first : ∀ a ∈ t.activities.rows, IsLeast (timestamps log a.id) a.first_seen
  last : ∀ a ∈ t.activities.rows, IsGreatest (timestamps log a.id) a.last_seen
  ordered : ∀ a ∈ t.activities.rows, a.first_seen ≤ a.last_seen
  stored : ∀ call ∈ log, ∃ a ∈ t.activities.rows, a.id = call.row ∧ a.kind = call.activity.kind
  window : ∀ before call after, log = before ++ call :: after → call.was_deduplicated = true →
    ∃ last, IsGreatest (timestamps before call.row) last ∧ last ≤ call.activity.timestamp ∧
      libraries.within call.activity.timestamp last call.dedup_window_secs = true
  counted : ∀ kind, occurrences t kind = (log.filter fun call => decide (call.activity.kind = kind)).length

/-- A row the call could be folded into. -/
structure Candidate (libraries : ActivityLibraries) (activity : NewActivity) (dedup_window_secs : Int) (t : Tables) (a : Activity) : Prop where
  member : a ∈ t.activities.rows
  repeated : ActivityStore.repeats activity a = true
  inside : libraries.within activity.timestamp a.last_seen dedup_window_secs = true

/-- Every row the call could be folded into was last seen no later than the call. -/
def Timely (libraries : ActivityLibraries) (activity : NewActivity) (dedup_window_secs : Int) (t : Tables) : Prop :=
  ∀ a, Candidate libraries activity dedup_window_secs t a → a.last_seen ≤ activity.timestamp

section timestamps
variable {log : List StoredCall} {call : StoredCall} {row : Int} {ts : DateTime}

theorem timestamps_append : timestamps (log ++ [call]) row =
    {ts | ts ∈ timestamps log row ∨ (call.row = row ∧ call.activity.timestamp = ts)} := by
  ext ts
  simp [timestamps,or_and_right,exists_or]

theorem timestamps_append_other (other : call.row ≠ row) : timestamps (log ++ [call]) row = timestamps log row := by
  rw [timestamps_append]
  ext ts
  simp [other]

/-- A call no earlier than all others of its row is the last of them. -/
theorem isGreatest_append {last : DateTime} (counted : call.row = row) (greatest : IsGreatest (timestamps log row) last)
    (later : last ≤ call.activity.timestamp) : IsGreatest (timestamps (log ++ [call]) row) call.activity.timestamp := by
  rw [timestamps_append]
  refine ⟨.inr ⟨counted,rfl⟩,?_⟩
  rintro ts (old | ⟨_,rfl⟩)
  · exact (greatest.2 old).trans later
  · exact le_refl _

/-- A call no earlier than some other of its row leaves the first one as it is. -/
theorem isLeast_append {first : DateTime} (least : IsLeast (timestamps log row) first) (later : first ≤ call.activity.timestamp) :
    IsLeast (timestamps (log ++ [call]) row) first := by
  rw [timestamps_append]
  refine ⟨.inl least.1,?_⟩
  rintro ts (old | ⟨_,rfl⟩)
  · exact least.2 old
  · exact later

theorem timestamps_single (counted : call.row = row) (unused : timestamps log row = ∅) :
    timestamps (log ++ [call]) row = {call.activity.timestamp} := by
  rw [timestamps_append,unused]
  ext ts
  simp [counted,eq_comm]

end timestamps

namespace ActivityStore
variable {libraries : ActivityLibraries} {activity : NewActivity} {dedup_window_secs : Int} {s t : Db}

theorem repeats_iff {a : Activity} : repeats activity a = true ↔ a.kind = activity.kind ∧ a.status ≠ .Ignored := by
  simp only [repeats,Bool.and_eq_true,beq_iff_eq,bne_iff_ne,Activity.kind,NewActivity.kind,ActivityKind.mk.injEq]
  tauto

/-- The row a call is folded into is the latest, by its text, of the candidates. -/
theorem commits_existing {found : Option Activity} (committed : Commits (existing libraries activity dedup_window_secs) s found t) :
    t = s ∧ ((found = none ∧ ∀ a, ¬ Candidate libraries activity dedup_window_secs s.toTables a) ∨
      ∃ old, found = some old ∧ Candidate libraries activity dedup_window_secs s.toTables old ∧
        ∀ a, Candidate libraries activity dedup_window_secs s.toTables a → old.last_seen.textLt a.last_seen = false) := by
  obtain ⟨read,rfl⟩ := commits_query.mp committed
  refine ⟨rfl,?_⟩
  have listed : ∀ a, a ∈ descending (fun a : Activity => a.last_seen.to_rfc3339) ((libraries.rows.order t.activities.rows).filter fun a =>
      repeats activity a && libraries.within activity.timestamp a.last_seen dedup_window_secs) ↔
        Candidate libraries activity dedup_window_secs t.toTables a := by
    intro a
    rw [mem_descending,List.mem_filter,(libraries.rows.perm _).mem_iff,Bool.and_eq_true]
    exact ⟨fun ⟨member,repeated,inside⟩ => ⟨member,repeated,inside⟩,fun c => ⟨c.member,c.repeated,c.inside⟩⟩
  have sorted := descending_sorted (fun a : Activity => a.last_seen.to_rfc3339) ((libraries.rows.order t.activities.rows).filter fun a =>
    repeats activity a && libraries.within activity.timestamp a.last_seen dedup_window_secs)
  revert read listed sorted
  generalize descending (fun a : Activity => a.last_seen.to_rfc3339) ((libraries.rows.order t.activities.rows).filter fun a =>
    repeats activity a && libraries.within activity.timestamp a.last_seen dedup_window_secs) = candidates
  intro read listed sorted
  subst read
  cases candidates with
  | nil => exact .inl ⟨rfl,fun a candidate => absurd ((listed a).mpr candidate) List.not_mem_nil⟩
  | cons old rest =>
    refine .inr ⟨old,rfl,(listed old).mp List.mem_cons_self,fun a candidate => decide_eq_false (not_lt.mpr ?_)⟩
    rcases List.mem_cons.mp ((listed a).mpr candidate) with rfl | later
    · exact le_refl _
    · exact (List.pairwise_cons.mp sorted).1 a later

/-- A call is folded into a row or stored as a row of its own. -/
theorem commits_insert_or_dedup {id : Int} {was_deduplicated : Bool}
    (committed : Commits (insert_or_dedup libraries activity dedup_window_secs) s (id,was_deduplicated) t) :
    (was_deduplicated = true ∧ ∃ old, old.id = id ∧ Candidate libraries activity dedup_window_secs s.toTables old ∧
      (∀ a, Candidate libraries activity dedup_window_secs s.toTables a → old.last_seen.textLt a.last_seen = false) ∧
        t.activities = s.activities.update (fun a => a.id == old.id) (again activity old.occurrence_count)
          (again_key activity old.occurrence_count)) ∨
    (was_deduplicated = false ∧ id = s.activities.nextId ∧ (∀ a, ¬ Candidate libraries activity dedup_window_secs s.toTables a) ∧
      t.activities = s.activities.insert (newRow activity) (newRow_key activity)) := by
  obtain ⟨found,m,searched,rest⟩ := commits_bind.mp committed
  obtain ⟨rfl,⟨rfl,unmatched⟩ | ⟨old,rfl,candidate,latest⟩⟩ := commits_existing searched
  · obtain ⟨_,m',read,inserting⟩ := commits_bind.mp rest
    obtain ⟨rfl,rfl⟩ := commits_query.mp read
    obtain ⟨_,m'',inserted,last⟩ := commits_bind.mp inserting
    obtain ⟨same,rfl⟩ := commits_pure.mp last
    obtain ⟨rfl,rfl⟩ := Prod.mk.inj same
    refine .inr ⟨rfl,rfl,unmatched,?_⟩
    rw [commits_execute.mp inserted]
  · obtain ⟨_,m',updated,last⟩ := commits_bind.mp rest
    obtain ⟨same,rfl⟩ := commits_pure.mp last
    obtain ⟨rfl,rfl⟩ := Prod.mk.inj same
    refine .inl ⟨rfl,old,rfl,candidate,latest,?_⟩
    rw [commits_execute.mp updated]

theorem commits_update_status {id : Int} {status : ActivityStatus} {promoted_fact_id : Option FactId} {u : Unit}
    (committed : Commits (update_status id status promoted_fact_id) s u t) :
    t.activities = s.activities.update (fun a => a.id == id) (linked status promoted_fact_id) (linked_key status promoted_fact_id) := by
  obtain ⟨found,m,read,rest⟩ := commits_bind.mp committed
  obtain ⟨rfl,rfl⟩ := commits_query.mp read
  obtain ⟨_,m',updated,last⟩ := commits_bind.mp rest
  obtain ⟨_,rfl⟩ := commits_require.mp last
  rw [commits_execute.mp updated]

end ActivityStore

/-- An update of the rows with one key rewrites one row. -/
theorem rows_update_at (table : Table Activity) {old : Activity} (member : old ∈ table.rows) (change : Activity → Activity)
    (same : ∀ a, Row.key (change a) = Row.key a) : ∃ before after, table.rows = before ++ old :: after ∧
      (table.update (fun a => a.id == old.id) change same).rows = before ++ change old :: after := by
  obtain ⟨before,after,split⟩ := List.append_of_mem member
  have ascending := table.ascending
  rw [split,List.pairwise_append,List.pairwise_cons] at ascending
  obtain ⟨_,⟨above,_⟩,below⟩ := ascending
  have front : before.map (fun a => if a.id == old.id then change a else a) = before := by
    refine (List.map_congr_left fun a listed => if_neg ?_).trans (List.map_id' _)
    have less : a.id < old.id := below a listed old List.mem_cons_self
    simp only [beq_iff_eq]
    omega
  have back : after.map (fun a => if a.id == old.id then change a else a) = after := by
    refine (List.map_congr_left fun a listed => if_neg ?_).trans (List.map_id' _)
    have less : old.id < a.id := above a listed
    simp only [beq_iff_eq]
    omega
  refine ⟨before,after,split,?_⟩
  rw [Table.update_rows,split,List.map_append,List.map_cons,front,back]
  simp

/-- What holds at every element of a list holds at every element of the list with one more. -/
theorem forall_split_append {α : Type} {P : List α → α → Prop} {l : List α} {last : α}
    (old : ∀ before x after, l = before ++ x :: after → P before x) (new : P l last) :
    ∀ before x after, l ++ [last] = before ++ x :: after → P before x := by
  intro before x after split
  rcases List.eq_nil_or_concat' after with rfl | ⟨after',y,rfl⟩
  · obtain ⟨rfl,same⟩ := List.append_inj' split rfl
    obtain rfl : last = x := by simpa using same
    exact new
  · rw [← List.cons_append,← List.append_assoc] at split
    exact old before x after' (List.append_inj' split rfl).1

namespace Accounts
variable {libraries : ActivityLibraries} {activity : NewActivity} {dedup_window_secs : Int} {log : List StoredCall} {s t : Tables}

theorem of_empty (empty : t.activities.rows = []) : Accounts libraries [] t where
  first := by simp [empty]
  last := by simp [empty]
  ordered := by simp [empty]
  stored := by simp
  window := by simp
  counted := by simp [occurrences,empty]

/-- Rows that change neither their kind nor what they count keep the account. -/
theorem updated (accounts : Accounts libraries log s) {sel : Activity → Bool} {change : Activity → Activity}
    (same : ∀ a, Row.key (change a) = Row.key a) (kept : ∀ a, (change a).kind = a.kind ∧ (change a).first_seen = a.first_seen ∧
      (change a).last_seen = a.last_seen ∧ (change a).occurrence_count = a.occurrence_count)
    (written : t.activities = s.activities.update sel change same) : Accounts libraries log t := by
  have rows : t.activities.rows = s.activities.rows.map fun a => if sel a then change a else a := by
    rw [written,Table.update_rows]
  have keeps : ∀ a : Activity, (if sel a then change a else a).id = a.id ∧ (if sel a then change a else a).kind = a.kind ∧
      (if sel a then change a else a).first_seen = a.first_seen ∧ (if sel a then change a else a).last_seen = a.last_seen ∧
        (if sel a then change a else a).occurrence_count = a.occurrence_count := by
    intro a
    by_cases selected : sel a = true
    · rw [if_pos selected]
      exact ⟨same a,kept a⟩
    · rw [if_neg selected]
      exact ⟨rfl,rfl,rfl,rfl,rfl⟩
  have pass : ∀ P : Activity → Prop, (∀ a ∈ s.activities.rows, P (if sel a then change a else a)) → ∀ a ∈ t.activities.rows, P a := by
    intro P holds a member
    rw [rows] at member
    obtain ⟨old,listed,rfl⟩ := List.mem_map.mp member
    exact holds old listed
  constructor
  · refine pass _ fun a listed => ?_
    obtain ⟨id,_,first,_⟩ := keeps a
    rw [id,first]
    exact accounts.first a listed
  · refine pass _ fun a listed => ?_
    obtain ⟨id,_,_,last,_⟩ := keeps a
    rw [id,last]
    exact accounts.last a listed
  · refine pass _ fun a listed => ?_
    obtain ⟨_,_,first,last,_⟩ := keeps a
    rw [first,last]
    exact accounts.ordered a listed
  · intro call listed
    obtain ⟨a,member,id,kind⟩ := accounts.stored call listed
    refine ⟨if sel a then change a else a,?_,(keeps a).1.trans id,(keeps a).2.1.trans kind⟩
    rw [rows]
    exact List.mem_map_of_mem member
  · exact accounts.window
  · intro kind
    have level : occurrences t kind = occurrences s kind := by
      unfold occurrences
      rw [rows,List.filter_map,List.map_map]
      have matching : ((fun a : Activity => decide (a.kind = kind)) ∘ fun a => if sel a then change a else a) =
          fun a => decide (a.kind = kind) := by
        funext a
        simp only [Function.comp_apply,(keeps a).2.1]
      have counts : (Activity.occurrence_count ∘ fun a => if sel a then change a else a) = Activity.occurrence_count := by
        funext a
        exact (keeps a).2.2.2.2
      rw [matching,counts]
    rw [level]
    exact accounts.counted kind

/-- A call folded into a row last seen no later than the call. -/
theorem again {old : Activity} (accounts : Accounts libraries log s) (candidate : Candidate libraries activity dedup_window_secs s old)
    (timely : old.last_seen ≤ activity.timestamp)
    (written : t.activities = s.activities.update (fun a => a.id == old.id) (ActivityStore.again activity old.occurrence_count)
      (ActivityStore.again_key activity old.occurrence_count)) :
    Accounts libraries (log ++ [⟨activity,dedup_window_secs,old.id,true⟩]) t := by
  have pass : ∀ P : Activity → Prop, P (ActivityStore.again activity old.occurrence_count old) →
      (∀ a ∈ s.activities.rows, a.id ≠ old.id → P a) → ∀ a ∈ t.activities.rows, P a := by
    intro P changed others a member
    rw [written] at member
    obtain ⟨before,listed,rfl⟩ := Table.mem_update.mp member
    by_cases same : before.id = old.id
    · obtain rfl : before = old := s.activities.key_unique listed candidate.member same
      simpa using changed
    · rw [if_neg (by simpa using same)]
      exact others before listed same
  have kind : old.kind = activity.kind := (ActivityStore.repeats_iff.mp candidate.repeated).1
  have since : old.first_seen ≤ activity.timestamp := (accounts.ordered old candidate.member).trans timely
  constructor
  · refine pass _ ?_ fun a listed other => ?_
    · exact isLeast_append (accounts.first old candidate.member) since
    · rw [timestamps_append_other other.symm]
      exact accounts.first a listed
  · refine pass _ ?_ fun a listed other => ?_
    · exact isGreatest_append rfl (accounts.last old candidate.member) timely
    · rw [timestamps_append_other other.symm]
      exact accounts.last a listed
  · refine pass _ ?_ fun a listed _ => accounts.ordered a listed
    exact since
  · have kept : ∀ a ∈ s.activities.rows, ∃ a' ∈ t.activities.rows, a'.id = a.id ∧ a'.kind = a.kind := by
      intro a listed
      refine ⟨if a.id == old.id then ActivityStore.again activity old.occurrence_count a else a,?_,?_⟩
      · rw [written]
        exact Table.mem_update.mpr ⟨a,listed,rfl⟩
      · split
        · exact ⟨rfl,rfl⟩
        · exact ⟨rfl,rfl⟩
    intro call listed
    rcases List.mem_append.mp listed with earlier | last
    · obtain ⟨a,member,id,same⟩ := accounts.stored call earlier
      obtain ⟨a',member',id',same'⟩ := kept a member
      exact ⟨a',member',id'.trans id,same'.trans same⟩
    · obtain rfl := List.mem_singleton.mp last
      obtain ⟨a',member',id',same'⟩ := kept old candidate.member
      exact ⟨a',member',id',same'.trans kind⟩
  · refine forall_split_append accounts.window fun _ => ?_
    exact ⟨old.last_seen,accounts.last old candidate.member,timely,candidate.inside⟩
  · intro k
    obtain ⟨before,after,split,changed⟩ := rows_update_at s.activities candidate.member _ (ActivityStore.again_key activity old.occurrence_count)
    have counted := accounts.counted k
    unfold occurrences at counted ⊢
    rw [written,changed,List.filter_append,List.filter_append]
    rw [split,List.filter_append] at counted
    by_cases same : activity.kind = k
    · have here : (ActivityStore.again activity old.occurrence_count old).kind = k := kind.trans same
      simp only [List.filter_cons,kind.trans same,here,same,decide_true,if_true,List.map_append,List.map_cons,List.sum_append,
        List.sum_cons,List.filter_nil,List.length_append,List.length_cons,List.length_nil] at counted ⊢
      have more : (ActivityStore.again activity old.occurrence_count old).occurrence_count = old.occurrence_count + 1 := rfl
      push_cast
      omega
    · have elsewhere : (ActivityStore.again activity old.occurrence_count old).kind ≠ k := fun here => same (kind.symm.trans here)
      have elsewhere' : old.kind ≠ k := fun here => same (kind.symm.trans here)
      simpa [List.filter_cons,elsewhere,elsewhere',same] using counted

/-- A call stored as a row of its own. -/
theorem newRow (accounts : Accounts libraries log s)
    (written : t.activities = s.activities.insert (ActivityStore.newRow activity) (ActivityStore.newRow_key activity)) :
    Accounts libraries (log ++ [⟨activity,dedup_window_secs,s.activities.nextId,false⟩]) t := by
  have older : ∀ a ∈ s.activities.rows, s.activities.nextId ≠ a.id := by
    intro a listed same
    exact absurd (s.activities.nextId_fresh listed) (by rw [same]; exact lt_irrefl _)
  have unused : timestamps log s.activities.nextId = ∅ := by
    refine Set.eq_empty_of_forall_notMem fun ts ⟨call,listed,row,_⟩ => ?_
    obtain ⟨a,member,id,_⟩ := accounts.stored call listed
    exact older a member (row.symm.trans id.symm)
  have pass : ∀ P : Activity → Prop, P (ActivityStore.newRow activity s.activities.nextId) →
      (∀ a ∈ s.activities.rows, s.activities.nextId ≠ a.id → P a) → ∀ a ∈ t.activities.rows, P a := by
    intro P new others a member
    rw [written] at member
    rcases Table.mem_insert.mp member with listed | rfl
    · exact others a listed (older a listed)
    · exact new
  constructor
  · refine pass _ ?_ fun a listed other => ?_
    · show IsLeast (timestamps _ s.activities.nextId) activity.timestamp
      rw [timestamps_single rfl unused]
      exact isLeast_singleton
    · rw [timestamps_append_other other]
      exact accounts.first a listed
  · refine pass _ ?_ fun a listed other => ?_
    · show IsGreatest (timestamps _ s.activities.nextId) activity.timestamp
      rw [timestamps_single rfl unused]
      exact isGreatest_singleton
    · rw [timestamps_append_other other]
      exact accounts.last a listed
  · refine pass _ ?_ fun a listed _ => accounts.ordered a listed
    exact le_refl activity.timestamp
  · intro call listed
    rw [written]
    rcases List.mem_append.mp listed with earlier | last
    · obtain ⟨a,member,id,same⟩ := accounts.stored call earlier
      exact ⟨a,Table.mem_insert.mpr (.inl member),id,same⟩
    · obtain rfl := List.mem_singleton.mp last
      exact ⟨_,Table.mem_insert.mpr (.inr rfl),rfl,rfl⟩
  · refine forall_split_append accounts.window ?_
    intro folded
    cases folded
  · intro k
    have counted := accounts.counted k
    unfold occurrences at counted ⊢
    rw [written,Table.insert_rows]
    by_cases same : activity.kind = k
    · have here : (ActivityStore.newRow activity s.activities.nextId).kind = k := same
      have one : (ActivityStore.newRow activity s.activities.nextId).occurrence_count = 1 := rfl
      simp [List.filter_append,here,same,one,counted]
    · have elsewhere : (ActivityStore.newRow activity s.activities.nextId).kind ≠ k := same
      simp [List.filter_append,elsewhere,same,counted]

/-- A timely call keeps the account. -/
theorem insert_or_dedup {s t : Db} {id : Int} {was_deduplicated : Bool} (accounts : Accounts libraries log s.toTables)
    (timely : Timely libraries activity dedup_window_secs s.toTables)
    (committed : Commits (ActivityStore.insert_or_dedup libraries activity dedup_window_secs) s (id,was_deduplicated) t) :
    Accounts libraries (log ++ [⟨activity,dedup_window_secs,id,was_deduplicated⟩]) t.toTables := by
  rcases ActivityStore.commits_insert_or_dedup committed with ⟨rfl,old,rfl,candidate,_,written⟩ | ⟨rfl,rfl,_,written⟩
  · exact accounts.again candidate (timely old candidate) written
  · exact accounts.newRow written

theorem update_status {s t : Db} {id : Int} {status : ActivityStatus} {promoted_fact_id : Option FactId} {u : Unit}
    (accounts : Accounts libraries log s.toTables) (committed : Commits (ActivityStore.update_status id status promoted_fact_id) s u t) :
    Accounts libraries log t.toTables :=
  accounts.updated (ActivityStore.linked_key status promoted_fact_id) (fun _ => ⟨rfl,rfl,rfl,rfl⟩) (ActivityStore.commits_update_status committed)

theorem congr (accounts : Accounts libraries log s) (same : t.activities = s.activities) : Accounts libraries log t := by
  refine ⟨?_,?_,?_,?_,accounts.window,?_⟩
  · rw [same]
    exact accounts.first
  · rw [same]
    exact accounts.last
  · rw [same]
    exact accounts.ordered
  · rw [same]
    exact accounts.stored
  · unfold occurrences
    rw [same]
    exact accounts.counted

end Accounts

/-- A call that is earlier than a row it could be folded into breaks the account. -/
theorem Accounts.broken {libraries : ActivityLibraries} {activity : NewActivity} {dedup_window_secs id : Int} {was_deduplicated : Bool}
    {log : List StoredCall} {s t : Db} (accounts : Accounts libraries log s.toTables)
    (parsed : ∀ a ∈ s.activities.rows, Parsed a.last_seen ∧ a.last_seen.year ≤ 9999)
    (untimely : ¬ Timely libraries activity dedup_window_secs s.toTables)
    (committed : Commits (ActivityStore.insert_or_dedup libraries activity dedup_window_secs) s (id,was_deduplicated) t) :
    ¬ Accounts libraries (log ++ [⟨activity,dedup_window_secs,id,was_deduplicated⟩]) t.toTables := by
  intro after
  simp only [Timely,not_forall] at untimely
  obtain ⟨a,candidate,earlier⟩ := untimely
  rcases ActivityStore.commits_insert_or_dedup committed with ⟨rfl,old,rfl,chosen,latest,written⟩ | ⟨rfl,rfl,unmatched,_⟩
  · obtain ⟨readable,early⟩ := parsed old chosen.member
    obtain ⟨readable',early'⟩ := parsed a candidate.member
    have order : a.last_seen ≤ old.last_seen := by
      refine not_lt.mp fun less => ?_
      have spelled := (textLt_iff_lt readable readable' (by omega)).mpr less
      rw [latest a candidate] at spelled
      cases spelled
    have kept : ActivityStore.again activity old.occurrence_count old ∈ t.activities.rows := by
      rw [written]
      exact Table.mem_update.mpr ⟨old,chosen.member,by simp⟩
    have seen : old.last_seen ∈ timestamps (log ++ [⟨activity,dedup_window_secs,old.id,true⟩]) old.id := by
      rw [timestamps_append]
      exact .inl (accounts.last old chosen.member).1
    exact earlier (order.trans ((after.last _ kept).2 seen))
  · exact unmatched a candidate

section calls
variable {ctx : MemoryCtx} {libraries : ActivityLibraries} {req : RecordActivityRequest} {embedder : Option EmbeddingProvider}
  {config : ActivityFilterConfig} {now : DateTime} {s t : Engine}

theorem activities_ensure_path {path : String} {s t : Db} {id : Int} (committed : Commits (ScopeStore.ensure_path path) s id t) :
    t.activities = s.activities := by
  have kept : Leaves Tables.activities (ScopeStore.ensure_path path) := leaves_ensure_path (fun _ _ => rfl) path
  exact kept _ _ _ committed

theorem activities_scopeOf {scope : Option String} {id : Int} (committed : Commits (scopeOf ctx scope) s id t) :
    t.storage.activities = s.storage.activities := by
  cases scope with
  | none =>
    obtain ⟨_,rfl⟩ := commits_pure.mp committed
    rfl
  | some path =>
    obtain ⟨_,_,writable,rest⟩ := commits_bind.mp committed
    obtain ⟨_,rfl⟩ := commits_lift.mp writable
    obtain ⟨leaf,m,ported,caching⟩ := commits_bind.mp rest
    obtain ⟨db,ensured,rfl⟩ := commits_port.mp ported
    obtain ⟨_,m',cached,last⟩ := commits_bind.mp caching
    obtain ⟨rfl,rfl⟩ := commits_pure.mp last
    rw [storage_cache_scope_chain cached]
    exact activities_ensure_path ensured

theorem activities_add_fact {request : AddFactRequest} {provider : EmbeddingProvider} {classifier : Option PersistenceClassifier} {id : FactId}
    (committed : Commits (add_fact ctx request provider classifier now) s id t) : t.storage.activities = s.storage.activities := by
  obtain ⟨embedding,scope_id,m,entered,inserted⟩ := commits_add_fact committed
  have made : m.storage.activities = s.storage.activities := by
    rcases commits_factScope entered with same | ⟨path,ensured⟩
    · rw [same]
    · exact activities_ensure_path ensured
  have stored : Leaves Tables.activities (insert_fact_atomic ctx.backend (request.newFact embedding scope_id (shouldPin request classifier) now)
      provider.fingerprint ctx.backend.embed_dim) :=
    leaves_bind (EmbeddingMeta.leaves_record_if_absent _ (fun _ _ => rfl) _ _) fun _ => FactStore.leaves_insert _ _ (fun _ _ => rfl) _
  exact (stored _ _ _ inserted).trans made

/-- After a call is stored, at most its row is linked to a fact. -/
theorem accounts_settle {log : List StoredCall} {decision : ActivityFilterDecision} {activity_id : Int} {was_deduplicated : Bool}
    {outcome : Option FactId × ActivityStatus} (accounts : Accounts libraries log s.storage.toTables)
    (committed : Commits (settle ctx req decision embedder activity_id was_deduplicated now) s outcome t) :
    Accounts libraries log t.storage.toTables := by
  unfold settle at committed
  by_cases folded : was_deduplicated = true
  · rw [if_pos folded] at committed
    obtain ⟨_,rfl⟩ := commits_pure.mp committed
    exact accounts
  · rw [if_neg folded] at committed
    have unpromoted : ∀ value, Commits (pure value : Op (Option FactId × ActivityStatus)) s outcome t → Accounts libraries log t.storage.toTables := by
      intro value ended
      obtain ⟨_,rfl⟩ := commits_pure.mp ended
      exact accounts
    cases decision with
    | Ignore => exact unpromoted _ committed
    | Record => exact unpromoted _ committed
    | Promote action =>
      cases embedder with
      | none => exact unpromoted _ committed
      | some provider =>
        obtain ⟨r,m,attempted,rest⟩ := commits_bind.mp committed
        rcases commits_attempt.mp attempted with ⟨fact_id,rfl,added⟩ | ⟨e,rfl,_,rfl⟩
        · obtain ⟨_,m',ported,last⟩ := commits_bind.mp rest
          obtain ⟨db,linked,rfl⟩ := commits_port.mp ported
          obtain ⟨_,rfl⟩ := commits_pure.mp last
          exact (accounts.congr (activities_add_fact added)).update_status linked
        · obtain ⟨_,rfl⟩ := commits_pure.mp rest
          exact accounts

/-- A call is ignored, or it is stored after its scope is made and before its row is
    linked. -/
theorem commits_record_activity {result : RecordActivityResult} (committed : Commits (record_activity ctx libraries req embedder config now) s result t) :
    (result.activity_id = none ∧ t = s) ∨ ∃ decision scope_id m id db outcome, Commits (scopeOf ctx req.scope_path) s scope_id m ∧
      Commits (ActivityStore.insert_or_dedup libraries (newActivity ctx.backend libraries req scope_id) config.dedup_window_secs) m.storage
        (id,result.was_deduplicated) db ∧ result.activity_id = some id ∧
          Commits (settle ctx req decision embedder id result.was_deduplicated now) { m with storage := db } outcome t := by
  obtain ⟨_,m₀,writable,rest⟩ := commits_bind.mp committed
  obtain ⟨_,same⟩ := commits_lift.mp writable
  rw [same] at rest
  -- what both other decisions do, with the pair that the row gave
  have stored : ∀ decision, Commits (do
      let scope_id ← scopeOf ctx req.scope_path
      let row ← port (ActivityStore.insert_or_dedup libraries (newActivity ctx.backend libraries req scope_id) config.dedup_window_secs)
      let settled ← settle ctx req decision embedder row.1 row.2 now
      return ⟨some row.1,row.2,settled.1,settled.2⟩ : Op RecordActivityResult) s result t → ∃ scope_id m id db outcome,
        Commits (scopeOf ctx req.scope_path) s scope_id m ∧
          Commits (ActivityStore.insert_or_dedup libraries (newActivity ctx.backend libraries req scope_id) config.dedup_window_secs) m.storage
            (id,result.was_deduplicated) db ∧ result.activity_id = some id ∧
              Commits (settle ctx req decision embedder id result.was_deduplicated now) { m with storage := db } outcome t := by
    intro decision body
    obtain ⟨scope_id,m,entered,storing⟩ := commits_bind.mp body
    obtain ⟨⟨id,folded⟩,m',ported,settling⟩ := commits_bind.mp storing
    obtain ⟨db,inserted,rfl⟩ := commits_port.mp ported
    obtain ⟨outcome,m'',settled,last⟩ := commits_bind.mp settling
    obtain ⟨rfl,rfl⟩ := commits_pure.mp last
    exact ⟨scope_id,m,id,db,outcome,entered,inserted,rfl,settled⟩
  cases decided : apply_filter libraries req.tool_name req.result config with
  | Ignore =>
    rw [decided] at rest
    obtain ⟨rfl,rfl⟩ := commits_pure.mp rest
    exact .inl ⟨rfl,rfl⟩
  | Record =>
    rw [decided] at rest
    exact .inr ⟨_,stored _ rest⟩
  | Promote action =>
    rw [decided] at rest
    exact .inr ⟨_,stored _ rest⟩

end calls

/-- The store after calls of the stream, each of which met a condition on the rows it
    found, in any order with other writes. A call that fails after its row was stored
    has still been counted. -/
inductive Stream (ctx : MemoryCtx) (libraries : ActivityLibraries) (meets : NewActivity → Int → Tables → Prop) : List StoredCall → Engine → Prop where
  | opened {s : Engine} (empty : s.storage.activities.rows = []) : Stream ctx libraries meets [] s
  | record {log : List StoredCall} {s m t : Engine} {req : RecordActivityRequest} {embedder : Option EmbeddingProvider}
      {config : ActivityFilterConfig} {now : DateTime} {scope_id id : Int} {result : RecordActivityResult}
      (before : Stream ctx libraries meets log s) (entered : Commits (scopeOf ctx req.scope_path) s scope_id m)
      (condition : meets (newActivity ctx.backend libraries req scope_id) config.dedup_window_secs s.storage.toTables)
      (committed : Commits (record_activity ctx libraries req embedder config now) s result t) (stored : result.activity_id = some id) :
      Stream ctx libraries meets
        (log ++ [⟨newActivity ctx.backend libraries req scope_id,config.dedup_window_secs,id,result.was_deduplicated⟩]) t
  | ignored {log : List StoredCall} {s t : Engine} {req : RecordActivityRequest} {embedder : Option EmbeddingProvider}
      {config : ActivityFilterConfig} {now : DateTime} {result : RecordActivityResult} (before : Stream ctx libraries meets log s)
      (committed : Commits (record_activity ctx libraries req embedder config now) s result t) (unstored : result.activity_id = none) :
      Stream ctx libraries meets log t
  | insert {log : List StoredCall} {s t : Engine} {activity : NewActivity} {dedup_window_secs id : Int} {was_deduplicated : Bool}
      (before : Stream ctx libraries meets log s) (condition : meets activity dedup_window_secs s.storage.toTables)
      (committed : Commits (port (ActivityStore.insert_or_dedup libraries activity dedup_window_secs)) s (id,was_deduplicated) t) :
      Stream ctx libraries meets (log ++ [⟨activity,dedup_window_secs,id,was_deduplicated⟩]) t
  | status {log : List StoredCall} {s t : Engine} {id : Int} {status : ActivityStatus} {promoted_fact_id : Option FactId} {u : Unit}
      (before : Stream ctx libraries meets log s)
      (committed : Commits (port (ActivityStore.update_status id status promoted_fact_id)) s u t) : Stream ctx libraries meets log t
  | other {log : List StoredCall} {s t : Engine} (before : Stream ctx libraries meets log s)
      (same : t.storage.activities = s.storage.activities) : Stream ctx libraries meets log t

/-- Where no call is earlier than a row it could be folded into, each row spans exactly
    its calls, no call was folded in from outside the window, and the rows of one kind
    count the calls of that kind. -/
theorem stream_accounts {ctx : MemoryCtx} {libraries : ActivityLibraries} {log : List StoredCall} {s : Engine}
    (stream : Stream ctx libraries (Timely libraries) log s) : Accounts libraries log s.storage.toTables := by
  induction stream with
  | opened empty => exact .of_empty empty
  | @record log s m t req embedder config now scope_id id result before entered timely committed stored ih =>
    rcases commits_record_activity committed with ⟨unstored,_⟩ | ⟨decision,scope_id',m',id',db,outcome,entered',inserted,stored',settled⟩
    · rw [unstored] at stored
      cases stored
    · obtain ⟨rfl,rfl⟩ := entered.functional entered'
      obtain rfl : id' = id := Option.some.inj (stored'.symm.trans stored)
      have unmoved := activities_scopeOf entered
      have met : Timely libraries (newActivity ctx.backend libraries req scope_id') config.dedup_window_secs m'.storage.toTables := by
        intro a candidate
        exact timely a ⟨by simpa only [unmoved] using candidate.member,candidate.repeated,candidate.inside⟩
      exact accounts_settle ((ih.congr unmoved).insert_or_dedup met inserted) settled
  | ignored before committed unstored ih =>
    rcases commits_record_activity committed with ⟨_,rfl⟩ | ⟨decision,scope_id,m,id,db,outcome,_,_,stored,_⟩
    · exact ih
    · rw [unstored] at stored
      cases stored
  | insert before timely committed ih =>
    obtain ⟨db,inserted,rfl⟩ := commits_port.mp committed
    exact ih.insert_or_dedup timely inserted
  | status before committed ih =>
    obtain ⟨db,linked,rfl⟩ := commits_port.mp committed
    exact ih.update_status linked
  | other before same ih => exact ih.congr same

namespace Sample

/-- The window in seconds, for instants a number of common years apart. -/
def clock : ActivityLibraries where
  to_lowercase := id
  to_string := fun _ => ""
  within := fun ts last window => decide ((ts.year - last.year) * 31536000 < window)
  rows := Shuffle.keep Activity

def toolCall (timestamp : DateTime) : RecordActivityRequest := ⟨"bash",.obj [],none,"s",timestamp,none,none⟩

def lastYear : DateTime := { moment with year := 2025 }

def recordAt (timestamp : DateTime) : Op RecordActivityResult := record_activity ctx clock (toolCall timestamp) none {} moment

def storedAt (timestamp : DateTime) (was_deduplicated : Bool) : StoredCall :=
  ⟨newActivity backend clock (toolCall timestamp) 1,300,1,was_deduplicated⟩

end Sample

theorem stream_accounts_sample : ∃ log s, Stream Sample.ctx Sample.clock (Timely Sample.clock) log s ∧ log.length = 2 ∧
    Accounts Sample.clock log s.storage.toTables := by
  have ran : Ends (Sample.recordAt Sample.moment) Sample.blank (fun r e => r.activity_id == some 1 &&
      (e.storage.activities.rows.all fun a => decide (a.last_seen ≤ Sample.moment)) &&
        Ends (Sample.recordAt Sample.moment) e fun r _ => r.activity_id == some 1 && r.was_deduplicated) = true := by
    decide +kernel
  obtain ⟨r,e,first,ran⟩ := commits_of_ends ran
  simp only [Bool.and_eq_true] at ran
  obtain ⟨⟨row,earlier⟩,ran⟩ := ran
  obtain ⟨r',e',second,ran⟩ := commits_of_ends ran
  simp only [Bool.and_eq_true] at ran
  obtain ⟨row',_⟩ := ran
  have one : Stream Sample.ctx Sample.clock (Timely Sample.clock) ([] ++ [Sample.storedAt Sample.moment r.was_deduplicated]) e := by
    refine .record (.opened rfl) (commits_pure.mpr ⟨rfl,rfl⟩) ?_ first (eq_of_beq row)
    intro a candidate
    exact absurd candidate.member List.not_mem_nil
  have two : Stream Sample.ctx Sample.clock (Timely Sample.clock)
      ([] ++ [Sample.storedAt Sample.moment r.was_deduplicated] ++ [Sample.storedAt Sample.moment r'.was_deduplicated]) e' := by
    refine .record one (commits_pure.mpr ⟨rfl,rfl⟩) ?_ second (eq_of_beq row')
    intro a candidate
    exact of_decide_eq_true (List.all_eq_true.mp earlier a candidate.member)
  exact ⟨_,_,two,rfl,stream_accounts two⟩

/-- A call from a year before the first one is folded into its row, which then was last
    seen before it was first seen. -/
theorem earlier_call_folded : ¬ ∀ (ctx : MemoryCtx) (libraries : ActivityLibraries) (log : List StoredCall) (s : Engine),
    Stream ctx libraries (fun _ _ _ => True) log s → Accounts libraries log s.storage.toTables := by
  intro claim
  have ran : Ends (Sample.recordAt Sample.moment) Sample.blank (fun r e => r.activity_id == some 1 &&
      Ends (Sample.recordAt Sample.lastYear) e fun r e => r.activity_id == some 1 &&
        e.storage.activities.rows.any fun a => decide (a.last_seen < a.first_seen)) = true := by
    decide +kernel
  obtain ⟨r,e,first,ran⟩ := commits_of_ends ran
  obtain ⟨row,ran⟩ := (Bool.and_eq_true _ _).mp ran
  obtain ⟨r',e',second,ran⟩ := commits_of_ends ran
  obtain ⟨row',ran⟩ := (Bool.and_eq_true _ _).mp ran
  obtain ⟨a,member,backwards⟩ := List.any_eq_true.mp ran
  have one : Stream Sample.ctx Sample.clock (fun _ _ _ => True) ([] ++ [Sample.storedAt Sample.moment r.was_deduplicated]) e :=
    .record (.opened rfl) (commits_pure.mpr ⟨rfl,rfl⟩) trivial first (eq_of_beq row)
  have two : Stream Sample.ctx Sample.clock (fun _ _ _ => True)
      ([] ++ [Sample.storedAt Sample.moment r.was_deduplicated] ++ [Sample.storedAt Sample.lastYear r'.was_deduplicated]) e' :=
    .record one (commits_pure.mpr ⟨rfl,rfl⟩) trivial second (eq_of_beq row')
  exact absurd ((claim _ _ _ _ two).ordered a member) (not_le.mpr (of_decide_eq_true backwards))

end MemoryEngine
