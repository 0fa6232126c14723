import Mathlib.Order.Defs.PartialOrder

/-! A transaction reads and rewrites a state and ends either in a commit or in
an error. An error carries no state, so it stands for a rollback. The rules
below follow the sequencing of transactions and never look inside one. -/

namespace MemoryEngine.Transaction

universe u

/-- A computation over a state `σ` that commits its final state or fails. -/
abbrev Tx (σ ε α : Type u) := StateT σ (Except ε) α

section rules
variable {σ ε α β γ : Type u}

/-- The transaction runs from `s` to a commit of `t` and returns `a`. -/
def Commits (x : Tx σ ε α) (s : σ) (a : α) (t : σ) : Prop := x.run s = .ok (a,t)

/-- A transaction has one outcome. -/
theorem Commits.functional {x : Tx σ ε α} {s t t' : σ} {a a' : α} (first : Commits x s a t) (second : Commits x s a' t') :
    a' = a ∧ t' = t := by
  rw [Commits,first] at second
  cases second
  exact ⟨rfl,rfl⟩

theorem commits_pure {a b : α} {s t : σ} : Commits (pure a : Tx σ ε α) s b t ↔ b = a ∧ t = s := by
  change Except.ok (a,s) = Except.ok (b,t) ↔ _
  simp only [Except.ok.injEq,Prod.mk.injEq]
  exact and_congr eq_comm eq_comm

theorem commits_bind {x : Tx σ ε α} {f : α → Tx σ ε β} {s t : σ} {b : β} :
    Commits (x >>= f) s b t ↔ ∃ a m, Commits x s a m ∧ Commits (f a) m b t := by
  simp only [Commits,StateT.run_bind]
  cases x.run s with
  | error e => simp [bind,Except.bind]
  | ok value =>
    constructor
    · intro last
      exact ⟨value.1,value.2,rfl,last⟩
    · rintro ⟨a,m,same,last⟩
      cases same
      exact last

/-- After a first part that commits, the rest runs on. -/
theorem run_bind_of_commits {x : Tx σ ε α} {s t : σ} {a : α} (committed : Commits x s a t) (f : α → Tx σ ε β) :
    (x >>= f).run s = (f a).run t := by
  rw [StateT.run_bind,committed]
  rfl

/-- Drop the value of a call. -/
theorem commits_void {x : Tx σ ε α} {s t : σ} {a : α} (committed : Commits x s a t) : Commits (do let _ ← x) s PUnit.unit t :=
  commits_bind.mpr ⟨a,t,committed,commits_pure.mpr ⟨rfl,rfl⟩⟩

theorem commits_map {x : Tx σ ε α} {f : α → β} {s t : σ} {b : β} :
    Commits (f <$> x) s b t ↔ ∃ a, Commits x s a t ∧ b = f a := by
  rw [← bind_pure_comp,commits_bind]
  constructor
  · rintro ⟨a,m,executed,last⟩
    obtain ⟨same,rfl⟩ := commits_pure.mp last
    exact ⟨a,executed,same⟩
  · rintro ⟨a,executed,same⟩
    exact ⟨a,t,executed,commits_pure.mpr ⟨same,rfl⟩⟩

theorem commits_throw {e : ε} {s t : σ} {a : α} : ¬ Commits (throw e : Tx σ ε α) s a t := by
  intro executed
  cases executed

theorem commits_get {s t a : σ} : Commits (get : Tx σ ε σ) s a t ↔ a = s ∧ t = s := by
  change Except.ok (s,s) = Except.ok (a,t) ↔ _
  simp only [Except.ok.injEq,Prod.mk.injEq]
  exact and_congr eq_comm eq_comm

/-- A lifted check leaves the state alone. -/
theorem commits_lift {x : Except ε α} {s t : σ} {a : α} :
    Commits (liftM x : Tx σ ε α) s a t ↔ x = .ok a ∧ t = s := by
  cases x with
  | error e => simp [Commits,liftM,monadLift,MonadLift.monadLift,StateT.lift,StateT.run,bind,Except.bind]
  | ok v =>
    change Except.ok (v,s) = Except.ok (a,t) ↔ _
    simp only [Except.ok.injEq,Prod.mk.injEq]
    exact and_congr_right fun _ => eq_comm

/-- Run a transaction only under a condition. -/
def guarded (p : Prop) [Decidable p] (x : Tx σ ε PUnit) : Tx σ ε PUnit := if p then x else pure ⟨⟩

theorem commits_guarded {p : Prop} [Decidable p] {x : Tx σ ε PUnit} {s t : σ} {u : PUnit} :
    Commits (guarded p x) s u t ↔ p ∧ Commits x s u t ∨ ¬p ∧ t = s := by
  unfold guarded
  by_cases holds : p
  · simp [holds]
  · rw [if_neg holds,commits_pure]
    simp [holds]

/-- A loop over a list that commits runs through every split of the list. -/
theorem commits_foldlM_split {f : β → α → Tx σ ε β} (front : List α) {rest : List α} {item : α} {b c : β} {s t : σ}
    (committed : Commits ((front ++ item :: rest).foldlM f b) s c t) :
    ∃ b₁ m b₂ n, Commits (front.foldlM f b) s b₁ m ∧ Commits (f b₁ item) m b₂ n ∧ Commits (rest.foldlM f b₂) n c t := by
  rw [List.foldlM_append] at committed
  obtain ⟨b₁,m,first,tail⟩ := commits_bind.mp committed
  rw [List.foldlM_cons] at tail
  obtain ⟨b₂,n,one,later⟩ := commits_bind.mp tail
  exact ⟨b₁,m,b₂,n,first,one,later⟩

/-- The transaction commits with a result and a state that pass a test. -/
def Ends (x : Tx σ ε α) (s : σ) (test : α → σ → Bool) : Bool :=
  match x.run s with
  | .ok (a,t) => test a t
  | .error _ => false

theorem commits_of_ends {x : Tx σ ε α} {s : σ} {test : α → σ → Bool} (ends : Ends x s test = true) :
    ∃ a t, Commits x s a t ∧ test a t = true := by
  unfold Ends at ends
  split at ends
  · rename_i a t executed
    exact ⟨a,t,executed,ends⟩
  · cases ends

theorem ends_of_commits {x : Tx σ ε α} {s t : σ} {a : α} {test : α → σ → Bool} (committed : Commits x s a t) :
    Ends x s test = test a t := by
  unfold Ends
  rw [committed]

/-- Run a transaction and hand its error back instead of failing; an error
    leaves the state as it was. -/
def attempt (x : Tx σ ε α) : Tx σ ε (Except ε α) := fun s =>
  match x.run s with
  | .ok (a,t) => .ok (.ok a,t)
  | .error e => .ok (.error e,s)

theorem commits_attempt {x : Tx σ ε α} {s t : σ} {r : Except ε α} : Commits (attempt x) s r t ↔
    (∃ a, r = .ok a ∧ Commits x s a t) ∨ (∃ e, r = .error e ∧ x.run s = .error e ∧ t = s) := by
  unfold Commits
  have unfolded : (attempt x).run s = match x.run s with
      | .ok (a,t) => .ok (.ok a,t)
      | .error e => .ok (.error e,s) := rfl
  rw [unfolded]
  cases x.run s with
  | error e =>
    constructor
    · intro same
      cases same
      exact .inr ⟨e,rfl,rfl,rfl⟩
    · rintro (⟨a,_,same⟩ | ⟨_,rfl,same,rfl⟩)
      · cases same
      · cases same
        rfl
  | ok value =>
    constructor
    · intro same
      cases same
      exact .inl ⟨_,rfl,rfl⟩
    · rintro (⟨a,rfl,same⟩ | ⟨_,_,same,_⟩)
      · cases same
        rfl
      · cases same

/-- Every commit of the transaction relates its first and last state by `R`. -/
def Keeps (R : σ → σ → Prop) (x : Tx σ ε α) : Prop := ∀ s a t, Commits x s a t → R s t

variable {R : σ → σ → Prop}

theorem Keeps.pure (refl : ∀ s, R s s) (a : α) : Keeps R (Pure.pure a : Tx σ ε α) := by
  intro s b t executed
  obtain ⟨_,rfl⟩ := commits_pure.mp executed
  exact refl t

theorem Keeps.throw (e : ε) : Keeps R (MonadExcept.throw e : Tx σ ε α) :=
  fun _ _ _ executed => absurd executed commits_throw

theorem Keeps.bind (trans : ∀ s m t, R s m → R m t → R s t) {x : Tx σ ε α} {f : α → Tx σ ε β}
    (first : Keeps R x) (rest : ∀ a, Keeps R (f a)) : Keeps R (x >>= f) := by
  intro s b t executed
  obtain ⟨a,m,head,tail⟩ := commits_bind.mp executed
  exact trans s m t (first s a m head) (rest a m b t tail)

theorem Keeps.attempt (refl : ∀ s, R s s) {x : Tx σ ε α} (keeps : Keeps R x) : Keeps R (attempt x) := by
  intro s r t executed
  rcases commits_attempt.mp executed with ⟨a,_,inner⟩ | ⟨_,_,_,rfl⟩
  · exact keeps s a t inner
  · exact refl t

theorem Keeps.guarded (refl : ∀ s, R s s) {p : Prop} [Decidable p] {x : Tx σ ε PUnit} (keeps : Keeps R x) :
    Keeps R (guarded p x) := by
  intro s u t executed
  rcases commits_guarded.mp executed with ⟨_,inner⟩ | ⟨_,rfl⟩
  · exact keeps s u t inner
  · exact refl t

/-- A loop over a list relates first and last state when each round over an item of it does. -/
theorem Keeps.foldlM_mem (refl : ∀ s, R s s) (trans : ∀ s m t, R s m → R m t → R s t)
    {f : β → α → Tx σ ε β} {items : List α} (round : ∀ b, ∀ a ∈ items, Keeps R (f b a)) (b : β) :
    Keeps R (items.foldlM f b) := by
  induction items generalizing b with
  | nil => exact Keeps.pure refl b
  | cons item rest ih =>
    rw [List.foldlM_cons]
    refine Keeps.bind trans (round b item List.mem_cons_self) fun next => ih (fun b a listed => ?_) next
    exact round b a (List.mem_cons_of_mem _ listed)

/-- The same when each round does, whatever the item. -/
theorem Keeps.foldlM (refl : ∀ s, R s s) (trans : ∀ s m t, R s m → R m t → R s t)
    {f : β → α → Tx σ ε β} (round : ∀ b a, Keeps R (f b a)) (items : List α) (b : β) :
    Keeps R (items.foldlM f b) :=
  Keeps.foldlM_mem refl trans (fun b a _ => round b a) b

end rules
end MemoryEngine.Transaction
