import MemoryEngine.Transaction

/-! A connection runs transactions one after another. A failed one leaves the state as it
was, and so does a crash before the commit: what a crash can leave are the states between
the transactions. Settings of the connection are no part of the state and are not rolled back. -/

namespace MemoryEngine.Sessions
open Transaction

structure Connection (σ κ : Type) where
  state : σ
  settings : κ
  /-- The states that the transactions so far began in, the latest first. -/
  left : List σ := []

/-- A computation that keeps the connection when it fails. -/
abbrev Session (σ κ ε α : Type) := ExceptT ε (StateM (Connection σ κ)) α

section rules
variable {σ κ ε α β : Type}

namespace Connection

/-- The states that a crash can leave, up to now. -/
def Leaves (c : Connection σ κ) (s : σ) : Prop := s ∈ c.left ∨ s = c.state

/-- A transaction begins. -/
def begun (c : Connection σ κ) : Connection σ κ := { c with left := c.state :: c.left }

theorem leaves_begun {c : Connection σ κ} {s : σ} : c.begun.Leaves s ↔ c.Leaves s := by
  simp only [Leaves,begun,List.mem_cons]
  constructor
  · rintro ((rfl | old) | rfl)
    · exact .inr rfl
    · exact .inl old
    · exact .inr rfl
  · rintro (old | rfl)
    · exact .inl (.inr old)
    · exact .inr rfl

end Connection

/-- The session ends with a result and a connection. -/
def Ends (x : Session σ κ ε α) (c : Connection σ κ) (r : Except ε α) (c' : Connection σ κ) : Prop := x.run.run c = (r,c')

/-- Run a transaction under the settings of the connection. It fails where a fault is due:
    faults are numbered by the transactions of the connection. -/
def transact (fault : Nat → Option ε) (x : κ → Tx σ ε α) : Session σ κ ε α := ExceptT.mk fun c =>
  match fault c.left.length with
  | some e => (.error e,c.begun)
  | none =>
    match (x c.settings).run c.state with
    | .ok (a,t) => (.ok a,{ c.begun with state := t })
    | .error e => (.error e,c.begun)

/-- Read from the state, outside of a transaction. -/
def read (x : Tx σ ε α) : Session σ κ ε α := ExceptT.mk fun c => ((x.run c.state).map Prod.fst,c)

/-- Change the settings. -/
def configure (f : κ → κ) : Session σ κ ε Unit := ExceptT.mk fun c => (.ok (),{ c with settings := f c.settings })

/-- Hand an error back instead of failing. -/
def attempt (x : Session σ κ ε α) : Session σ κ ε (Except ε α) := ExceptT.mk fun c => ((.ok (x.run.run c).1),(x.run.run c).2)

theorem Ends.functional {x : Session σ κ ε α} {c c₁ c₂ : Connection σ κ} {r₁ r₂ : Except ε α} (first : Ends x c r₁ c₁) (second : Ends x c r₂ c₂) :
    r₂ = r₁ ∧ c₂ = c₁ := by
  rw [Ends,first] at second
  cases second
  exact ⟨rfl,rfl⟩

theorem ends_total (x : Session σ κ ε α) (c : Connection σ κ) : ∃ r c', Ends x c r c' := ⟨_,_,rfl⟩

theorem ends_pure {a : α} {c c' : Connection σ κ} {r : Except ε α} : Ends (pure a : Session σ κ ε α) c r c' ↔ r = .ok a ∧ c' = c := by
  change (Except.ok a,c) = (r,c') ↔ _
  rw [Prod.mk.injEq,eq_comm,@eq_comm _ c]

theorem ends_throw {e : ε} {c c' : Connection σ κ} {r : Except ε α} : Ends (throw e : Session σ κ ε α) c r c' ↔ r = .error e ∧ c' = c := by
  change (Except.error e,c) = (r,c') ↔ _
  rw [Prod.mk.injEq,eq_comm,@eq_comm _ c]

theorem ends_bind {x : Session σ κ ε α} {f : α → Session σ κ ε β} {c c' : Connection σ κ} {r : Except ε β} :
    Ends (x >>= f) c r c' ↔ (∃ a m, Ends x c (.ok a) m ∧ Ends (f a) m r c') ∨ ∃ e, Ends x c (.error e) c' ∧ r = .error e := by
  obtain ⟨first,m,ended⟩ := ends_total x c
  have unfolded : (x >>= f).run.run c = (ExceptT.bindCont f (x.run.run c).1).run (x.run.run c).2 := rfl
  rw [Ends,unfolded,ended]
  cases first with
  | ok a =>
    constructor
    · intro last
      exact .inl ⟨a,m,ended,last⟩
    · rintro (⟨a',m',same,last⟩ | ⟨e,same,_⟩)
      · obtain ⟨equal,rfl⟩ := ended.functional same
        cases equal
        exact last
      · cases (ended.functional same).1
  | error e =>
    constructor
    · intro last
      cases last
      exact .inr ⟨e,ended,rfl⟩
    · rintro (⟨a',m',same,_⟩ | ⟨e',same,rfl⟩)
      · cases (ended.functional same).1
      · obtain ⟨equal,rfl⟩ := ended.functional same
        cases equal
        rfl

theorem ends_read {x : Tx σ ε α} {c c' : Connection σ κ} {r : Except ε α} :
    Ends (read x : Session σ κ ε α) c r c' ↔ r = (x.run c.state).map Prod.fst ∧ c' = c := by
  change ((x.run c.state).map Prod.fst,c) = (r,c') ↔ _
  rw [Prod.mk.injEq,eq_comm,@eq_comm _ c]

/-- After a read, the rest goes on with the value. -/
theorem ends_read_bind {x : Tx σ ε α} {f : α → Session σ κ ε β} {c c' : Connection σ κ} {a : α} {r : Except ε β} (reads : Commits x c.state a c.state) :
    Ends (read x >>= f) c r c' ↔ Ends (f a) c r c' := by
  have first : Ends (read x : Session σ κ ε α) c (.ok a) c := ends_read.mpr ⟨by rw [reads]; rfl,rfl⟩
  rw [ends_bind]
  constructor
  · rintro (⟨a',m,ended,last⟩ | ⟨e,failed,_⟩)
    · obtain ⟨same,rfl⟩ := first.functional ended
      cases same
      exact last
    · cases (first.functional failed).1
  · exact fun last => .inl ⟨a,c,first,last⟩

theorem ends_configure {f : κ → κ} {c c' : Connection σ κ} {r : Except ε Unit} :
    Ends (configure f : Session σ κ ε Unit) c r c' ↔ r = .ok () ∧ c' = { c with settings := f c.settings } := by
  change (Except.ok (),({ c with settings := f c.settings } : Connection σ κ)) = (r,c') ↔ _
  rw [Prod.mk.injEq,eq_comm,@eq_comm _ c']

theorem ends_attempt {x : Session σ κ ε α} {c c' : Connection σ κ} {r : Except ε (Except ε α)} :
    Ends (attempt x) c r c' ↔ ∃ inner, Ends x c inner c' ∧ r = .ok inner := by
  change (Except.ok (x.run.run c).1,(x.run.run c).2) = (r,c') ↔ _
  constructor
  · intro same
    cases same
    exact ⟨_,rfl,rfl⟩
  · rintro ⟨inner,ended,rfl⟩
    rw [Ends] at ended
    rw [ended]

/-- A transaction that fails leaves the state, and one that commits was not at fault. -/
theorem ends_transact {fault : Nat → Option ε} {x : κ → Tx σ ε α} {c c' : Connection σ κ} {r : Except ε α} :
    Ends (transact fault x) c r c' ↔
      (∃ a t, fault c.left.length = none ∧ Commits (x c.settings) c.state a t ∧ r = .ok a ∧ c' = { c.begun with state := t }) ∨
      ∃ e, (fault c.left.length = some e ∨ fault c.left.length = none ∧ (x c.settings).run c.state = .error e) ∧ r = .error e ∧ c' = c.begun := by
  have unfolded : (transact fault x).run.run c = match fault c.left.length with
      | some e => (.error e,c.begun)
      | none =>
        match (x c.settings).run c.state with
        | .ok (a,t) => (.ok a,{ c.begun with state := t })
        | .error e => (.error e,c.begun) := rfl
  rw [Ends,unfolded]
  cases due : fault c.left.length with
  | some e =>
    change (Except.error e,c.begun) = (r,c') ↔ _
    simp [Prod.mk.injEq,@eq_comm _ _ r,@eq_comm _ _ c']
  | none =>
    cases run : (x c.settings).run c.state with
    | error e =>
      change (Except.error e,c.begun) = (r,c') ↔ _
      simp [Commits,run,Prod.mk.injEq,@eq_comm _ _ r,@eq_comm _ _ c']
    | ok value =>
      obtain ⟨a,t⟩ := value
      constructor
      · intro same
        cases same
        exact .inl ⟨a,t,rfl,run,rfl,rfl⟩
      · rintro (⟨a',t',_,committed,rfl,rfl⟩ | ⟨e,failed | ⟨_,failed⟩,_⟩)
        · obtain ⟨rfl,rfl⟩ := Commits.functional run committed
          rfl
        · cases failed
        · cases failed

theorem settings_of_transact {fault : Nat → Option ε} {x : κ → Tx σ ε α} {c c' : Connection σ κ} {r : Except ε α} (ended : Ends (transact fault x) c r c') :
    c'.settings = c.settings := by
  rcases ends_transact.mp ended with ⟨_,_,_,_,_,rfl⟩ | ⟨_,_,_,rfl⟩ <;> rfl

end rules
end MemoryEngine.Sessions
