import Mathlib.Order.Basic

/-! Runs that keep a log. What a run has passed on stays in its log, whether it ends or
fails, and what it does next may depend on all of it. -/

namespace Traces

/-- A run takes the log so far, and leaves a longer one with a result or a failure. -/
def Traced (τ ε α : Type) := List τ → List τ × Except ε α

variable {τ ε α β : Type}

namespace Traced

instance : Monad (Traced τ ε) where
  pure a := fun log => (log,.ok a)
  bind m f := fun log => match m log with
    | (log',.ok a) => f a log'
    | (log',.error e) => (log',.error e)

def fail (e : ε) : Traced τ ε α := fun log => (log,.error e)

def ofExcept (r : Except ε α) : Traced τ ε α := fun log => (log,r)

/-- Pass something on, and receive what comes back from it. -/
def pass (x : τ) (answer : List τ → Except ε α) : Traced τ ε α := fun log => (log ++ [x],answer log)

end Traced

open Traced

/-- All that a run adds to the log satisfies one property, and its result another. -/
def Safe (P : τ → Prop) (Q : α → Prop) (m : Traced τ ε α) : Prop :=
  ∀ log, (∃ more, (m log).1 = log ++ more ∧ ∀ x ∈ more, P x) ∧ ∀ a, (m log).2 = .ok a → Q a

variable {P : τ → Prop} {Q : α → Prop} {R : β → Prop}

theorem safe_pure {a : α} (holds : Q a) : Safe P Q (pure a : Traced τ ε α) := by
  intro log
  refine ⟨⟨[],(List.append_nil log).symm,fun _ none_ => absurd none_ List.not_mem_nil⟩,fun b same => ?_⟩
  cases same
  exact holds

theorem safe_fail (e : ε) : Safe P Q (fail e : Traced τ ε α) := by
  intro log
  refine ⟨⟨[],(List.append_nil log).symm,fun _ none_ => absurd none_ List.not_mem_nil⟩,fun b same => ?_⟩
  cases same

theorem safe_pass {x : τ} {answer : List τ → Except ε α} (passes : P x) (holds : ∀ log a, answer log = .ok a → Q a) :
    Safe P Q (pass x answer) := by
  intro log
  refine ⟨⟨[x],rfl,fun y member => ?_⟩,holds log⟩
  rw [List.mem_singleton.mp member]
  exact passes

theorem Safe.bind {m : Traced τ ε α} {f : α → Traced τ ε β} (first : Safe P Q m) (next : ∀ a, Q a → Safe P R (f a)) : Safe P R (m >>= f) := by
  intro log
  obtain ⟨⟨more,longer,passes⟩,holds⟩ := first log
  have step : (m >>= f) log = match m log with
    | (log',.ok a) => f a log'
    | (log',.error e) => (log',.error e) := rfl
  rw [step]
  cases ran : m log with
  | mk log' result =>
    rw [ran] at longer holds
    cases result with
    | error e => exact ⟨⟨more,longer,passes⟩,fun b same => by cases same⟩
    | ok a =>
      obtain ⟨⟨later,longer',passes'⟩,holds'⟩ := next a (holds a rfl) log'
      refine ⟨⟨more ++ later,?_,fun x member => ?_⟩,holds'⟩
      · rw [longer',show log' = log ++ more from longer,List.append_assoc]
      · rcases List.mem_append.mp member with old | new
        · exact passes x old
        · exact passes' x new

theorem Safe.mono {Q' : α → Prop} {m : Traced τ ε α} (safe : Safe P Q m) (weaker : ∀ a, Q a → Q' a) : Safe P Q' m :=
  fun log => ⟨(safe log).1,fun a ran => weaker a ((safe log).2 a ran)⟩

/-- A loop keeps an invariant of what it has collected. -/
theorem safe_foldlM {l : List α} {f : β → α → Traced τ ε β} (step : ∀ b, ∀ a ∈ l, R b → Safe P R (f b a)) {b : β} (start : R b) :
    Safe P R (l.foldlM f b) := by
  induction l generalizing b with
  | nil => exact safe_pure start
  | cons a l ih =>
    rw [List.foldlM_cons]
    exact (step b a List.mem_cons_self start).bind fun b' holds => ih (fun b'' a' member => step b'' a' (List.mem_cons_of_mem _ member)) holds

/-- A run that ends has ended its first part. -/
theorem ran_bind {m : Traced τ ε α} {f : α → Traced τ ε β} {log : List τ} {b : β} (ran : ((m >>= f) log).2 = .ok b) :
    ∃ a log', m log = (log',.ok a) ∧ (f a log').2 = .ok b := by
  have step : (m >>= f) log = match m log with
    | (log',.ok a) => f a log'
    | (log',.error e) => (log',.error e) := rfl
  rw [step] at ran
  cases first : m log with
  | mk log' result =>
    rw [first] at ran
    cases result with
    | error e => cases ran
    | ok a => exact ⟨a,log',rfl,ran⟩

end Traces
