import MemoryEngine.Types
import Mathlib.Data.List.Perm.Basic
import Mathlib.Logic.Relation

/-! The pool of read connections: a monitor of one lock and one condition variable. What
happens under the lock is one step, and between the steps the calls of any number of threads
take their turns in any order. -/

namespace MemoryEngine.ReadPool

/-- `MemoryError::Pool` -/
structure PoolError where
  message : String
deriving DecidableEq

def MAX_READ_POOL : Nat := 256

/-- `read_pool_size` of a pool over a file. -/
def validate_read_pool_size (read_pool_size : Nat) : Except PoolError Nat :=
  if read_pool_size = 0 then
    .error ⟨"read_pool_size must be >= 1 for a file-backed pool; use ConnectionPool::open_memory for an in-memory database"⟩
  else if read_pool_size > MAX_READ_POOL then
    .error ⟨s!"read_pool_size {read_pool_size} exceeds the maximum of {MAX_READ_POOL}; each read connection is a real file descriptor"⟩
  else .ok read_pool_size

structure Config where
  read_pool_size : Nat
  read_acquire_timeout : Nat
  /-- A duration as its `Debug` shows it. -/
  duration : Nat → String

/-- A call of `read` that has to wait. -/
structure Waiter (R : Type) where
  reader : R
  /-- When the call got the lock. -/
  since : Nat
  deadline : Nat
deriving DecidableEq

structure Pool (R C : Type) where
  read_conns : List C
  /-- The guards that are alive. -/
  guards : List (R × C)
  /-- Dropped guards that gave the connection back and have not notified yet. -/
  returning : List R
  /-- The queue of `read_available`. -/
  parked : List (Waiter R)
  /-- Calls that left the queue, by the deadline or not, and want the lock. -/
  woken : List (Waiter R × Bool)
  now : Nat

section pool
variable {R C : Type} (config : Config)

/-- Every connection is idle. -/
def idle (conns : List C) : Pool R C := ⟨conns,[],[],[],[],0⟩

/-- The read connections of `open`, one for each number below the size. -/
def opened (connect : Nat → C) : Except PoolError (Pool R C) := do
  let read_pool_size ← validate_read_pool_size config.read_pool_size
  return idle ((List.range read_pool_size).map connect)

/-- What a call that waited too long is told. -/
def acquire_timeout : PoolError :=
  ⟨s!"read pool acquire timed out after {config.duration config.read_acquire_timeout} (all {config.read_pool_size} connections checked out)"⟩

/-- What `read` does under the lock until it returns or parks. -/
def read_locked (p : Pool R C) (w : Waiter R) (timed_out : Bool) : Except PoolError (Pool R C) :=
  match p.read_conns.getLast? with
  | some conn => .ok { p with read_conns := p.read_conns.dropLast, guards := (w.reader,conn) :: p.guards }
  | none =>
    if timed_out then .error (acquire_timeout config)
    else .ok { p with parked := p.parked ++ [w] }

def waiter (p : Pool R C) (r : R) : Waiter R := ⟨r,p.now,p.now + config.read_acquire_timeout⟩

/-- A waiter leaves the queue. -/
def wake [DecidableEq R] (p : Pool R C) (w : Waiter R) (timed_out : Bool) : Pool R C := { p with parked := p.parked.erase w, woken := (w,timed_out) :: p.woken }

/-- One thread takes a step, or time passes. -/
inductive Step [DecidableEq R] [DecidableEq C] : Pool R C → Pool R C → Prop
  | read (p p' : Pool R C) (r : R) (entered : read_locked config p (waiter config p r) false = .ok p') : Step p p'
  /-- The first half of dropping a guard. -/
  | give_back (p : Pool R C) (r : R) (conn : C) (alive : (r,conn) ∈ p.guards) :
      Step p { p with guards := p.guards.erase (r,conn), read_conns := p.read_conns ++ [conn], returning := r :: p.returning }
  /-- The second half: some waiter wakes up, if there is one. -/
  | notify_one (p : Pool R C) (r : R) (w : Waiter R) (dropped : r ∈ p.returning) (waiting : w ∈ p.parked) :
      Step p { wake p w false with returning := p.returning.erase r }
  | notify_none (p : Pool R C) (r : R) (dropped : r ∈ p.returning) (unheard : p.parked = []) : Step p { p with returning := p.returning.erase r }
  | spurious (p : Pool R C) (w : Waiter R) (waiting : w ∈ p.parked) : Step p (wake p w false)
  | time_out (p : Pool R C) (w : Waiter R) (waiting : w ∈ p.parked) (due : w.deadline ≤ p.now) : Step p (wake p w true)
  | resume (p p' : Pool R C) (w : Waiter R) (timed_out : Bool) (woken : (w,timed_out) ∈ p.woken)
      (locked : read_locked config { p with woken := p.woken.erase (w,timed_out) } w timed_out = .ok p') : Step p p'
  | fail (p : Pool R C) (w : Waiter R) (timed_out : Bool) (e : PoolError) (woken : (w,timed_out) ∈ p.woken)
      (locked : read_locked config p w timed_out = .error e) : Step p { p with woken := p.woken.erase (w,timed_out) }
  | tick (p : Pool R C) (d : Nat) : Step p { p with now := p.now + d }

variable {config} {p p' : Pool R C} {w : Waiter R} {timed_out : Bool} {conns : List C}

theorem opened_ok {connect : Nat → C} {start : Pool R C} (opening : opened config connect = .ok start) :
    start = idle ((List.range config.read_pool_size).map connect) ∧ 1 ≤ config.read_pool_size ∧ config.read_pool_size ≤ MAX_READ_POOL := by
  unfold opened validate_read_pool_size at opening
  split at opening
  · cases opening
  · split at opening
    · cases opening
    · cases opening
      exact ⟨rfl,by omega,by omega⟩

/-- The outcomes of `read` under the lock. -/
theorem read_locked_cases (locked : read_locked config p w timed_out = .ok p') :
    (∃ rest conn, p.read_conns = rest ++ [conn] ∧ p' = { p with read_conns := rest, guards := (w.reader,conn) :: p.guards }) ∨
    p.read_conns = [] ∧ timed_out = false ∧ p' = { p with parked := p.parked ++ [w] } := by
  unfold read_locked at locked
  split at locked
  · rename_i conn last
    cases locked
    obtain ⟨rest,split⟩ := List.getLast?_eq_some_iff.mp last
    refine .inl ⟨rest,conn,split,?_⟩
    rw [split,List.dropLast_concat]
  · rename_i empty
    split at locked
    · cases locked
    · rename_i early
      cases locked
      exact .inr ⟨List.getLast?_eq_none_iff.mp empty,Bool.eq_false_of_not_eq_true early,rfl⟩

theorem read_locked_error {e : PoolError} :
    read_locked config p w timed_out = .error e ↔ p.read_conns = [] ∧ timed_out = true ∧ e = acquire_timeout config := by
  rw [read_locked,← List.getLast?_eq_none_iff]
  cases p.read_conns.getLast? <;> cases timed_out <;> simp [eq_comm]

/-- Where the connections are, and the deadlines. -/
structure Placed (config : Config) (conns : List C) (p : Pool R C) : Prop where
  /-- Each connection is idle or in one guard. -/
  placed : (p.read_conns ++ p.guards.map Prod.snd).Perm conns
  /-- A deadline stays where it was when the call began. -/
  parked : ∀ w ∈ p.parked, w.deadline = w.since + config.read_acquire_timeout
  woken : ∀ x ∈ p.woken, x.1.deadline = x.1.since + config.read_acquire_timeout ∧ (x.2 = true → x.1.deadline ≤ p.now)

/-- What holds between the steps: while a call waits, some call is on its way for each idle connection. -/
structure Consistent (config : Config) (conns : List C) (p : Pool R C) : Prop extends Placed config conns p where
  awaited : p.parked ≠ [] → p.read_conns.length ≤ p.returning.length + p.woken.length

theorem consistent_idle : Consistent config conns (idle conns : Pool R C) where
  placed := by
    rw [idle,List.map_nil,List.append_nil]
  awaited waits := absurd rfl waits
  parked w none_yet := by cases none_yet
  woken x none_yet := by cases none_yet

/-- Under the lock a call takes a connection that someone was on the way for, or it parks
    where there is none. -/
theorem Placed.locked (placed : Placed config conns p) (deadline : w.deadline = w.since + config.read_acquire_timeout)
    (spare : p.parked ≠ [] → p.read_conns.length ≤ p.returning.length + p.woken.length + 1)
    (locked : read_locked config p w timed_out = .ok p') : Consistent config conns p' := by
  rcases read_locked_cases locked with ⟨rest,conn,split,rfl⟩ | ⟨empty,_,rfl⟩
  · refine ⟨⟨?_,placed.parked,placed.woken⟩,fun waits => ?_⟩
    · refine .trans ?_ placed.placed
      rw [split,List.append_assoc]
      exact List.Perm.refl _
    · have enough := spare waits
      rw [split,List.length_append,List.length_singleton] at enough
      exact Nat.le_of_succ_le_succ enough
  · refine ⟨⟨placed.placed,fun w' listed => ?_,placed.woken⟩,fun _ => ?_⟩
    · rcases List.mem_append.mp listed with old | new
      · exact placed.parked w' old
      · rw [List.mem_singleton.mp new]
        exact deadline
    · rw [empty]
      exact Nat.zero_le _

variable [DecidableEq R]

theorem Consistent.wake (consistent : Consistent config conns p) (waiting : w ∈ p.parked) (due : timed_out = true → w.deadline ≤ p.now) :
    Consistent config conns (wake p w timed_out) where
  placed := consistent.placed
  awaited _ := by
    have enough := consistent.awaited (List.ne_nil_of_mem waiting)
    exact enough.trans (Nat.add_le_add_left (Nat.le_succ p.woken.length) _)
  parked w' listed := consistent.parked w' (List.mem_of_mem_erase listed)
  woken x listed := by
    rcases List.mem_cons.mp listed with rfl | old
    · exact ⟨consistent.parked w waiting,due⟩
    · exact consistent.woken x old

theorem length_erase_succ {α : Type} [BEq α] [LawfulBEq α] {a : α} {l : List α} (listed : a ∈ l) : (l.erase a).length + 1 = l.length := by
  have positive := List.length_pos_of_mem listed
  rw [List.length_erase_of_mem listed]
  omega

variable [DecidableEq C]

/-- Every step keeps the connections, the wake-ups and the deadlines. -/
theorem Consistent.step (consistent : Consistent config conns p) (step : Step config p p') : Consistent config conns p' := by
  cases step with
  | read _ r entered => exact consistent.locked rfl (fun waits => Nat.le_succ_of_le (consistent.awaited waits)) entered
  | give_back r conn alive =>
    refine ⟨⟨?_,consistent.parked,consistent.woken⟩,fun waits => ?_⟩
    · refine .trans ?_ consistent.placed
      rw [List.append_assoc]
      exact ((List.perm_cons_erase alive).map Prod.snd).symm.append_left p.read_conns
    · have enough := consistent.awaited waits
      simp only [List.length_append,List.length_cons,List.length_nil]
      omega
  | notify_one r w dropped waiting =>
    have awake : Consistent config conns (ReadPool.wake p w false) := consistent.wake waiting (fun late => by cases late)
    refine ⟨⟨awake.placed,awake.parked,awake.woken⟩,fun waits => ?_⟩
    have enough := consistent.awaited (List.ne_nil_of_mem waiting)
    have left := length_erase_succ dropped
    simp only [ReadPool.wake,List.length_cons]
    omega
  | notify_none r dropped unheard => exact ⟨⟨consistent.placed,consistent.parked,consistent.woken⟩,fun waits => absurd unheard waits⟩
  | spurious w waiting => exact consistent.wake waiting (fun late => by cases late)
  | time_out w waiting due => exact consistent.wake waiting (fun _ => due)
  | resume _ w timed_out woken locked =>
    have placed : Placed config conns { p with woken := p.woken.erase (w,timed_out) } :=
      ⟨consistent.placed,consistent.parked,fun x listed => consistent.woken x (List.mem_of_mem_erase listed)⟩
    refine placed.locked (consistent.woken _ woken).1 (fun waits => ?_) locked
    -- The call itself was the one on its way.
    have left := length_erase_succ woken
    rw [Nat.add_assoc]
    exact (consistent.awaited waits).trans (Nat.add_le_add_left (Nat.le_of_eq left.symm) _)
  | fail w timed_out e woken locked =>
    refine ⟨⟨consistent.placed,consistent.parked,fun x listed => consistent.woken x (List.mem_of_mem_erase listed)⟩,fun _ => ?_⟩
    rw [(read_locked_error.mp locked).1]
    exact Nat.zero_le _
  | tick d =>
    refine ⟨⟨consistent.placed,consistent.parked,fun x listed => ?_⟩,consistent.awaited⟩
    obtain ⟨kept,due⟩ := consistent.woken x listed
    exact ⟨kept,fun late => Nat.le_add_right_of_le (due late)⟩

theorem consistent_of_run (run : Relation.ReflTransGen (Step config) (idle conns) p) : Consistent config conns p := by
  induction run with
  | refl => exact consistent_idle
  | tail _ step ih => exact ih.step step

/-- In every run of an opened pool the connections are shared out and none is lost, and a call
    that fails says the truth: its time is over and the guards have all the connections. -/
theorem acquire_timeout_true {connect : Nat → C} {start : Pool R C} {e : PoolError} (opening : opened config connect = .ok start)
    (run : Relation.ReflTransGen (Step config) start p) :
    (p.read_conns ++ p.guards.map Prod.snd).Perm ((List.range config.read_pool_size).map connect) ∧
    ((w,timed_out) ∈ p.woken → read_locked config p w timed_out = .error e →
      e = acquire_timeout config ∧
      (p.guards.map Prod.snd).Perm ((List.range config.read_pool_size).map connect) ∧
      p.guards.length = config.read_pool_size ∧ 1 ≤ p.guards.length ∧ w.since + config.read_acquire_timeout ≤ p.now) := by
  obtain ⟨rfl,positive,_⟩ := opened_ok opening
  have consistent := consistent_of_run run
  refine ⟨consistent.placed,fun woken locked => ?_⟩
  obtain ⟨empty,rfl,said⟩ := read_locked_error.mp locked
  obtain ⟨deadline,due⟩ := consistent.woken _ woken
  have held : (p.guards.map Prod.snd).Perm ((List.range config.read_pool_size).map connect) := by
    have placed := consistent.placed
    rwa [empty,List.nil_append] at placed
  have size : p.guards.length = config.read_pool_size := by
    have lengths := held.length_eq
    rwa [List.length_map,List.length_map,List.length_range] at lengths
  refine ⟨said,held,size,size ▸ positive,?_⟩
  rw [← deadline]
  exact due rfl

section example_pool

def single : Config := ⟨1,3,fun d => s!"{d}ms"⟩

/-- Reader 1 keeps the only connection, and reader 2 has waited for three milliseconds. -/
def overdue : Pool Nat Nat := ⟨[],[(1,0)],[],[],[(⟨2,0,3⟩,true)],3⟩

theorem overdue_run : Relation.ReflTransGen (Step single) (idle [0]) overdue :=
  .head (.read _ _ 1 rfl) (.head (.read _ _ 2 rfl) (.head (.tick _ 3) (.single (.time_out _ ⟨2,0,3⟩ (by decide) (by decide)))))

theorem acquire_timeout_true_overdue :
    read_locked single overdue ⟨2,0,3⟩ true = .error ⟨"read pool acquire timed out after 3ms (all 1 connections checked out)"⟩ ∧
    overdue.guards.length = 1 ∧ 0 + 3 ≤ overdue.now :=
  have failed : read_locked single overdue ⟨2,0,3⟩ true = .error ⟨"read pool acquire timed out after 3ms (all 1 connections checked out)"⟩ := rfl
  have opening : opened single id = .ok (idle [0]) := rfl
  have told := (acquire_timeout_true opening overdue_run).2 (by decide) failed
  ⟨failed,told.2.2.1,told.2.2.2.2⟩

end example_pool

/-- Twice the dropped guards that have still to notify, and the calls on their way to the lock. -/
def on_way (p : Pool R C) : Nat := 2 * p.returning.length + p.woken.length

/-- Someone who is on the way moves on. -/
def Moves (config : Config) (p p' : Pool R C) : Prop := Step config p p' ∧ on_way p' < on_way p ∧ p'.now = p.now

/-- Nobody who is on the way waits for another. -/
theorem moves (moving : on_way p ≠ 0) : ∃ p', Moves config p p' := by
  by_cases silent : p.returning = []
  · have awake : p.woken ≠ [] := fun none_woken => moving (by rw [on_way,silent,none_woken]; rfl)
    obtain ⟨⟨w,timed_out⟩,woken⟩ := List.exists_mem_of_ne_nil _ awake
    have left := length_erase_succ woken
    cases locked : read_locked config { p with woken := p.woken.erase (w,timed_out) } w timed_out with
    | ok p' =>
      refine ⟨p',.resume p p' w timed_out woken locked,?_⟩
      rcases read_locked_cases locked with ⟨rest,conn,_,rfl⟩ | ⟨_,_,rfl⟩ <;>
        exact ⟨Nat.add_lt_add_left (Nat.lt_of_succ_le (Nat.le_of_eq left)) _,rfl⟩
    | error e =>
      have failed := read_locked_error.mp locked
      refine ⟨_,.fail p w timed_out e woken (read_locked_error.mpr failed),Nat.add_lt_add_left (Nat.lt_of_succ_le (Nat.le_of_eq left)) _,rfl⟩
  · obtain ⟨r,dropped⟩ := List.exists_mem_of_ne_nil _ silent
    have left := length_erase_succ dropped
    by_cases unheard : p.parked = []
    · refine ⟨_,.notify_none p r dropped unheard,?_,rfl⟩
      simp only [on_way]
      omega
    · obtain ⟨w,waiting⟩ := List.exists_mem_of_ne_nil _ unheard
      refine ⟨_,.notify_one p r w dropped waiting,?_,rfl⟩
      simp only [on_way,wake,List.length_cons]
      omega

theorem Moves.run {q : Pool R C} (moves : Relation.ReflTransGen (Moves config) p q) : Relation.ReflTransGen (Step config) p q ∧ q.now = p.now := by
  induction moves with
  | refl => exact ⟨.refl,rfl⟩
  | tail _ step ih => exact ⟨ih.1.tail step.1,step.2.2.trans ih.2⟩

/-- The calls on their way come to their ends, in any order. -/
theorem settles (config : Config) (p : Pool R C) : ∃ q, Relation.ReflTransGen (Moves config) p q ∧ on_way q = 0 := by
  induction size : on_way p using Nat.strong_induction_on generalizing p with
  | _ n ih =>
    by_cases still : on_way p = 0
    · exact ⟨p,.refl,still⟩
    · obtain ⟨p',move⟩ : ∃ p', Moves config p p' := moves still
      obtain ⟨q,rest,done⟩ := ih _ (size ▸ move.2.1) p' rfl
      exact ⟨q,.head move rest,done⟩

/-- No wake-up is lost: in every run a call that waits while a connection is idle has someone on
    the way for it, and as soon as those have moved, before any time passes, no call waits or
    all the connections are in guards. -/
theorem no_lost_wakeup {connect : Nat → C} {start : Pool R C} (opening : opened config connect = .ok start)
    (run : Relation.ReflTransGen (Step config) start p) :
    (p.parked ≠ [] → p.read_conns.length ≤ p.returning.length + p.woken.length) ∧
    (∃ q, Relation.ReflTransGen (Moves config) p q ∧ on_way q = 0) ∧
    ∀ q, Relation.ReflTransGen (Moves config) p q → q.now = p.now ∧ (on_way q = 0 → q.parked = [] ∨ q.guards.length = config.read_pool_size) := by
  obtain ⟨rfl,_⟩ := opened_ok opening
  refine ⟨(consistent_of_run run).awaited,settles config p,fun q moves => ?_⟩
  obtain ⟨steps,now⟩ := Moves.run moves
  refine ⟨now,fun still => ?_⟩
  have consistent := consistent_of_run (run.trans steps)
  by_cases waits : q.parked = []
  · exact .inl waits
  · have enough := consistent.awaited waits
    rw [on_way] at still
    have empty : q.read_conns = [] := List.eq_nil_of_length_eq_zero (by omega)
    have placed := consistent.placed.length_eq
    rw [empty,List.nil_append,List.length_map,List.length_map,List.length_range] at placed
    exact .inr placed

/-- Both guards of a pool of two are dropped before either notifies, while two calls wait. -/
theorem no_lost_wakeup_two : ∃ p : Pool Nat Nat, p.parked.length = 2 ∧ p.read_conns.length = 2 ∧
    ∃ q, Relation.ReflTransGen (Moves ⟨2,3,fun d => s!"{d}ms"⟩) p q ∧ on_way q = 0 := by
  have opening : opened ⟨2,3,fun d => s!"{d}ms"⟩ id = .ok (idle [0,1] : Pool Nat Nat) := rfl
  refine ⟨⟨[0,1],[],[1,2],[⟨3,0,3⟩,⟨4,0,3⟩],[],0⟩,rfl,rfl,(no_lost_wakeup opening ?_).2.1⟩
  refine .head (.read _ _ 1 rfl) (.head (.read _ _ 2 rfl) (.head (.read _ _ 3 rfl) (.head (.read _ _ 4 rfl) ?_)))
  exact .head (.give_back _ 2 0 (by decide)) (.single (.give_back _ 1 1 (by decide)))

end pool
end MemoryEngine.ReadPool
