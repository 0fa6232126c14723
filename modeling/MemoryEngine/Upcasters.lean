import MemoryEngine.Constraints
import MemoryEngine.Dump
import MemoryEngine.Engine
import Mathlib.Data.List.Induction

/-! Payloads of older revisions. A registry holds for each event type the steps that take a
payload from one revision to the next, and a read runs them up to the latest revision it
knows. -/

namespace MemoryEngine
open Time KeyedTable Transaction

/-- What a step or the registry fails with: the error for a missing step is told apart from
    every other. -/
inductive UpcastError where
  | MissingUpcaster (message : String)
  | other (error : MemoryError)

def UpcastError.raise : UpcastError → MemoryError
  | .MissingUpcaster message => .Migration message
  | .other error => error

/-- A call ends early with an error, or in an addition that overflows. -/
inductive UpcastHalt where
  | error (e : UpcastError)
  | overflow

abbrev UpcasterFn := Json → Except UpcastError Json

/-- The next revision, capped at the largest. -/
def saturating_succ (revision : UInt16) : UInt16 := if revision = 65535 then revision else revision + 1

/-- The next revision, none at the largest. -/
def checked_succ (revision : UInt16) : Option UInt16 := if revision = 65535 then none else some (revision + 1)

theorem succ_below {revision latest : UInt16} (below : revision < latest) :
    checked_succ revision = some (revision + 1) ∧ (revision + 1).toNat = revision.toNat + 1 := by
  have inside : revision.toNat < latest.toNat := UInt16.lt_iff_toNat_lt.mp below
  have bound := latest.toNat_lt
  have top : revision ≠ 65535 := by
    intro same
    rw [same] at inside
    have largest : (65535 : UInt16).toNat = 65535 := rfl
    omega
  refine ⟨if_neg top,?_⟩
  rw [UInt16.toNat_add]
  exact Nat.mod_eq_of_lt (by simp; omega)

structure UpcasterRegistry where
  upcasters : String → Option (UInt16 → Option UpcasterFn)
  latest : String → Option UInt16

namespace UpcasterRegistry

def new : UpcasterRegistry := ⟨fun _ => none,fun _ => none⟩

def latest_revision (registry : UpcasterRegistry) (event_type : String) : UInt16 := (registry.latest event_type).getD 1

/-- The step that the chain of an event type has at a revision. -/
def step (registry : UpcasterRegistry) (event_type : String) (revision : UInt16) : Option UpcasterFn :=
  (registry.upcasters event_type).bind fun inner => inner revision

def register (registry : UpcasterRegistry) (event_type : String) (from_revision : UInt16) (func : UpcasterFn) : UpcasterRegistry :=
  let target := saturating_succ from_revision
  let chain := (registry.upcasters event_type).getD fun _ => none
  let current := registry.latest_revision event_type
  { upcasters := Function.update registry.upcasters event_type (some (Function.update chain from_revision (some func)))
    latest := Function.update registry.latest event_type (some (if target > current then target else current)) }

def missing (event_type : String) (rev next : UInt16) : UpcastError :=
  .MissingUpcaster s!"missing upcaster for event type '{event_type}' from revision {rev} to {next}"

/-- Run the steps as long as the revision is below the latest. -/
def walk (step : UInt16 → Option UpcasterFn) (event_type : String) (latest rev : UInt16) (value : Json) : Except UpcastHalt (Json × UInt16) :=
  if rev < latest then
    match step rev with
    | none =>
      match checked_succ rev with
      | none => .error .overflow
      | some next => .error (.error (missing event_type rev next))
    | some func =>
      match func value with
      | .error e => .error (.error e)
      | .ok changed =>
        match _moved : checked_succ rev with
        | none => .error .overflow
        | some next => walk step event_type latest next changed
  else .ok (value,rev)
termination_by latest.toNat - rev.toNat
decreasing_by
  have below : rev < latest := by assumption
  obtain ⟨some_,next_⟩ := succ_below below
  obtain rfl : rev + 1 = next := Option.some.inj (some_.symm.trans _moved)
  have inside : rev.toNat < latest.toNat := UInt16.lt_iff_toNat_lt.mp below
  omega

def upcast (registry : UpcasterRegistry) (event_type : String) (current_revision : UInt16) (payload : Json) : Except UpcastHalt (Json × UInt16) :=
  let latest := registry.latest_revision event_type
  if current_revision ≥ latest then .ok (payload,current_revision) else
    walk (registry.step event_type) event_type latest current_revision payload

/-! ## The walk -/

section walk
variable {chain : UInt16 → Option UpcasterFn} {event_type : String} {latest rev : UInt16}

theorem walk_below (below : rev < latest) (value : Json) : walk chain event_type latest rev value =
    match chain rev with
    | none => .error (.error (missing event_type rev (rev + 1)))
    | some func =>
      match func value with
      | .error e => .error (.error e)
      | .ok changed => walk chain event_type latest (rev + 1) changed := by
  obtain ⟨some_,_⟩ := succ_below below
  rw [walk,if_pos below]
  cases chain rev with
  | none => simp [some_]
  | some func =>
    cases made : func value with
    | error e => simp [made]
    | ok changed =>
      simp only [made]
      split
      · rename_i none_
        rw [some_] at none_
        cases none_
      · rename_i next moved
        rw [some_] at moved
        obtain rfl := Option.some.inj moved
        rfl

theorem walk_done (above : ¬ rev < latest) (value : Json) : walk chain event_type latest rev value = .ok (value,rev) := by
  rw [walk,if_neg above]

/-- The steps stand in the chain one after another from a revision on. -/
def Registered (chain : UInt16 → Option UpcasterFn) : UInt16 → List UpcasterFn → Prop
  | _,[] => True
  | rev,func :: rest => chain rev = some func ∧ Registered chain (rev + 1) rest

/-- The payload through the steps in their order. -/
def composed (steps : List UpcasterFn) (payload : Json) : Except UpcastError Json := steps.foldlM (fun value func => func value) payload

/-- The revision so many steps further. -/
def after (rev : UInt16) (steps : List UpcasterFn) : UInt16 := UInt16.ofNat (rev.toNat + steps.length)

theorem after_nil (rev : UInt16) : after rev [] = rev := by simp [after]

theorem after_cons (below : rev < latest) (func : UpcasterFn) (rest : List UpcasterFn) : after rev (func :: rest) = after (rev + 1) rest := by
  rw [after,after,(succ_below below).2,List.length_cons]
  congr 1
  omega

theorem toNat_after {steps : List UpcasterFn} (inside : rev.toNat + steps.length ≤ latest.toNat) :
    (after rev steps).toNat = rev.toNat + steps.length := by
  have bound := latest.toNat_lt
  rw [after,UInt16.toNat_ofNat']
  exact Nat.mod_eq_of_lt (by omega)

/-- The walk goes through steps that succeed. -/
theorem walk_runs {steps : List UpcasterFn} {value out : Json} (registered : Registered chain rev steps)
    (inside : rev.toNat + steps.length ≤ latest.toNat) (done : composed steps value = .ok out) :
    walk chain event_type latest rev value = walk chain event_type latest (after rev steps) out := by
  induction steps generalizing rev value with
  | nil =>
    obtain rfl : value = out := Except.ok.inj done
    rw [after_nil]
  | cons func rest ih =>
    obtain ⟨here,later⟩ := registered
    have below : rev < latest := by
      rw [UInt16.lt_iff_toNat_lt]
      simp only [List.length_cons] at inside
      omega
    rw [walk_below below,here,after_cons below]
    unfold composed at done
    rw [List.foldlM_cons] at done
    cases made : func value with
    | error e =>
      rw [made] at done
      cases done
    | ok changed =>
      rw [made] at done
      have within : (rev + 1).toNat + rest.length ≤ latest.toNat := by
        rw [(succ_below below).2]
        simp only [List.length_cons] at inside
        omega
      simpa only [made] using ih later within done

/-- Where a walk ends: at the latest revision, at a step that is missing or at a step that fails. -/
inductive Ended (chain : UInt16 → Option UpcasterFn) (event_type : String) (latest : UInt16) (at_ : UInt16) (out : Json) :
    Except UpcastHalt (Json × UInt16) → Prop where
  | latest (same : at_ = latest) : Ended chain event_type latest at_ out (.ok (out,latest))
  | missing (below : at_ < latest) (none_ : chain at_ = none) :
    Ended chain event_type latest at_ out (.error (.error (missing event_type at_ (at_ + 1))))
  | failed (below : at_ < latest) {func : UpcasterFn} {e : UpcastError} (some_ : chain at_ = some func) (fails : func out = .error e) :
    Ended chain event_type latest at_ out (.error (.error e))

theorem walk_ends (value : Json) (inside : rev.toNat ≤ latest.toNat) : ∃ steps out, Registered chain rev steps ∧
    rev.toNat + steps.length ≤ latest.toNat ∧ composed steps value = .ok out ∧
    Ended chain event_type latest (after rev steps) out (walk chain event_type latest rev value) := by
  obtain ⟨distance,apart⟩ : ∃ distance, latest.toNat = rev.toNat + distance := ⟨latest.toNat - rev.toNat,by omega⟩
  induction distance generalizing rev value with
  | zero =>
    have same : rev = latest := UInt16.toNat_inj.mp apart.symm
    refine ⟨[],value,trivial,inside,rfl,?_⟩
    rw [walk_done (by rw [same]; exact UInt16.lt_irrefl _),after_nil,same]
    exact .latest rfl
  | succ distance ih =>
    have below : rev < latest := UInt16.lt_iff_toNat_lt.mpr (by omega)
    have next := (succ_below below).2
    rw [walk_below below]
    cases found : chain rev with
    | none =>
      refine ⟨[],value,trivial,inside,rfl,?_⟩
      rw [after_nil]
      exact .missing below found
    | some func =>
      cases made : func value with
      | error e =>
        refine ⟨[],value,trivial,inside,rfl,?_⟩
        rw [after_nil]
        simpa only [made] using Ended.failed below found made
      | ok changed =>
        have nearer : latest.toNat = (rev + 1).toNat + distance := by omega
        obtain ⟨steps,out,registered,within,done,ended⟩ := ih changed (by omega) nearer
        refine ⟨func :: steps,out,⟨found,registered⟩,?_,?_,?_⟩
        · simp only [List.length_cons]
          omega
        · show (func :: steps).foldlM (fun value func => func value) value = .ok out
          rw [List.foldlM_cons,made]
          exact done
        · rw [after_cons below]
          simpa only [made] using ended

end walk

section upcast
variable {registry : UpcasterRegistry} {event_type : String} {rev : UInt16} {payload : Json}

theorem upcast_above (above : registry.latest_revision event_type ≤ rev) : registry.upcast event_type rev payload = .ok (payload,rev) :=
  if_pos above

theorem upcast_below (below : rev < registry.latest_revision event_type) : registry.upcast event_type rev payload =
    walk (registry.step event_type) event_type (registry.latest_revision event_type) rev payload :=
  if_neg (UInt16.not_le.mpr below)

/-- A call below the latest revision ends as its walk does. -/
theorem upcast_ends (below : rev < registry.latest_revision event_type) (payload : Json) :
    ∃ steps out, Registered (registry.step event_type) rev steps ∧
      rev.toNat + steps.length ≤ (registry.latest_revision event_type).toNat ∧ composed steps payload = .ok out ∧
      Ended (registry.step event_type) event_type (registry.latest_revision event_type) (after rev steps) out
        (registry.upcast event_type rev payload) := by
  rw [upcast_below below]
  exact walk_ends payload (UInt16.le_iff_toNat_le.mp (UInt16.le_of_lt below))

/-- No addition of a call overflows. -/
theorem upcast_total (registry : UpcasterRegistry) (event_type : String) (rev : UInt16) (payload : Json) :
    registry.upcast event_type rev payload ≠ .error .overflow := by
  intro halted
  by_cases below : rev < registry.latest_revision event_type
  · obtain ⟨steps,out,_,_,_,ended⟩ := upcast_ends below payload
    rw [halted] at ended
    cases ended
  · rw [upcast_above (UInt16.not_lt.mp below)] at halted
    cases halted

/-- Below the latest revision a call returns what the registered steps up to it compose to. -/
theorem upcast_ok_iff (below : rev < registry.latest_revision event_type) {out : Json} {final : UInt16} :
    registry.upcast event_type rev payload = .ok (out,final) ↔ final = registry.latest_revision event_type ∧
      ∃ steps, Registered (registry.step event_type) rev steps ∧
        rev.toNat + steps.length = (registry.latest_revision event_type).toNat ∧ composed steps payload = .ok out := by
  constructor
  · intro returned
    obtain ⟨steps,out',registered,inside,done,ended⟩ := upcast_ends below payload
    rw [returned] at ended
    cases ended with
    | latest same =>
      refine ⟨rfl,steps,registered,?_,done⟩
      rw [← same,toNat_after inside]
  · rintro ⟨rfl,steps,registered,whole,done⟩
    have inside := le_of_eq whole
    have same : after rev steps = registry.latest_revision event_type := UInt16.toNat_inj.mp (by rw [toNat_after inside,whole])
    rw [upcast_below below,walk_runs registered inside done,same,walk_done (UInt16.lt_irrefl _)]

/-- The first step that does not succeed decides the error. -/
theorem upcast_error_iff {e : UpcastError} : registry.upcast event_type rev payload = .error (.error e) ↔
    ∃ steps out, Registered (registry.step event_type) rev steps ∧
      rev.toNat + steps.length < (registry.latest_revision event_type).toNat ∧ composed steps payload = .ok out ∧
      (registry.step event_type (after rev steps) = none ∧ e = missing event_type (after rev steps) (after rev steps + 1) ∨
        ∃ func, registry.step event_type (after rev steps) = some func ∧ func out = .error e) := by
  constructor
  · intro failed
    by_cases below : rev < registry.latest_revision event_type
    · obtain ⟨steps,out,registered,inside,done,ended⟩ := upcast_ends below payload
      have strict : after rev steps < registry.latest_revision event_type →
          rev.toNat + steps.length < (registry.latest_revision event_type).toNat := by
        intro before
        rw [← toNat_after inside]
        exact UInt16.lt_iff_toNat_lt.mp before
      rw [failed] at ended
      cases ended with
      | missing before none_ => exact ⟨steps,out,registered,strict before,done,.inl ⟨none_,rfl⟩⟩
      | failed before some_ fails => exact ⟨steps,out,registered,strict before,done,.inr ⟨_,some_,fails⟩⟩
    · rw [upcast_above (UInt16.not_lt.mp below)] at failed
      cases failed
  · rintro ⟨steps,out,registered,strict,done,stopped⟩
    have inside := le_of_lt strict
    have before : after rev steps < registry.latest_revision event_type := by
      rw [UInt16.lt_iff_toNat_lt,toNat_after inside]
      exact strict
    have below : rev < registry.latest_revision event_type := UInt16.lt_iff_toNat_lt.mpr (by omega)
    rw [upcast_below below,walk_runs registered inside done,walk_below before]
    rcases stopped with ⟨none_,rfl⟩ | ⟨func,some_,fails⟩
    · rw [none_]
    · simp only [some_,fails]

end upcast

/-! ## Filling a registry -/

/-- An event type, the revision a step starts from and the step. -/
abbrev Registration := String × UInt16 × UpcasterFn

def filled (registrations : List Registration) : UpcasterRegistry :=
  registrations.foldl (fun registry r => registry.register r.1 r.2.1 r.2.2) new

/-- What was registered for one event type and revision, in order. -/
def registeredFor (registrations : List Registration) (event_type : String) (revision : UInt16) : List UpcasterFn :=
  (registrations.filter fun r => decide (r.1 = event_type ∧ r.2.1 = revision)).map fun r => r.2.2

theorem filled_concat (registrations : List Registration) (r : Registration) :
    filled (registrations ++ [r]) = (filled registrations).register r.1 r.2.1 r.2.2 := by
  rw [filled,List.foldl_append]
  rfl

theorem step_register (registry : UpcasterRegistry) (r : Registration) (event_type : String) (revision : UInt16) :
    (registry.register r.1 r.2.1 r.2.2).step event_type revision =
      if r.1 = event_type ∧ r.2.1 = revision then some r.2.2 else registry.step event_type revision := by
  obtain ⟨named,from_revision,func⟩ := r
  by_cases same : named = event_type
  · subst same
    by_cases here : from_revision = revision
    · subst here
      simp [step,register]
    · have other : revision ≠ from_revision := fun equal => here equal.symm
      cases chain : registry.upcasters named with
      | none => simp [step,register,here,chain,Function.update_of_ne other]
      | some inner => simp [step,register,here,chain,Function.update_of_ne other]
  · have other : event_type ≠ named := fun equal => same equal.symm
    simp [step,register,same,Function.update_of_ne other]

/-- The step in force is the one registered last. -/
theorem step_filled (registrations : List Registration) (event_type : String) (revision : UInt16) :
    (filled registrations).step event_type revision = (registeredFor registrations event_type revision).getLast? := by
  induction registrations using List.reverseRecOn with
  | nil => rfl
  | append_singleton rest r ih =>
    rw [filled_concat,step_register,ih,registeredFor,registeredFor,List.filter_append,List.map_append]
    by_cases here : r.1 = event_type ∧ r.2.1 = revision
    · simp [here]
    · rw [if_neg here,List.filter_cons_of_neg (by simpa using here)]
      simp

theorem latest_register (registry : UpcasterRegistry) (r : Registration) (event_type : String) :
    (registry.register r.1 r.2.1 r.2.2).latest_revision event_type =
      if r.1 = event_type ∧ registry.latest_revision event_type < saturating_succ r.2.1 then saturating_succ r.2.1
      else registry.latest_revision event_type := by
  obtain ⟨named,from_revision,func⟩ := r
  by_cases same : named = event_type
  · subst same
    simp [register,latest_revision]
  · have other : event_type ≠ named := fun equal => same equal.symm
    simp [register,latest_revision,same,Function.update_of_ne other]

/-- The latest revision is one or the target of a step, and no step goes beyond it. -/
theorem latest_filled (registrations : List Registration) (event_type : String) :
    (∀ r ∈ registrations, r.1 = event_type → saturating_succ r.2.1 ≤ (filled registrations).latest_revision event_type) ∧
      1 ≤ (filled registrations).latest_revision event_type ∧
      ((filled registrations).latest_revision event_type = 1 ∨
        ∃ r ∈ registrations, r.1 = event_type ∧ (filled registrations).latest_revision event_type = saturating_succ r.2.1) := by
  induction registrations using List.reverseRecOn with
  | nil => exact ⟨fun _ listed => absurd listed List.not_mem_nil,UInt16.le_refl _,.inl rfl⟩
  | append_singleton rest r ih =>
    obtain ⟨upper,least,reached⟩ := ih
    rw [filled_concat,latest_register]
    by_cases raised : r.1 = event_type ∧ (filled rest).latest_revision event_type < saturating_succ r.2.1
    · simp only [if_pos raised]
      refine ⟨?_,UInt16.le_trans least (UInt16.le_of_lt raised.2),.inr ⟨r,by simp,raised.1,rfl⟩⟩
      intro r' listed named
      rcases List.mem_append.mp listed with old | fresh
      · exact UInt16.le_trans (upper r' old named) (UInt16.le_of_lt raised.2)
      · rw [List.mem_singleton.mp fresh]
        exact UInt16.le_refl _
    · simp only [if_neg raised]
      refine ⟨?_,least,?_⟩
      · intro r' listed named
        rcases List.mem_append.mp listed with old | fresh
        · exact upper r' old named
        · rw [List.mem_singleton.mp fresh] at named ⊢
          exact UInt16.not_lt.mp fun above => raised ⟨named,above⟩
      · rcases reached with first | ⟨r',listed,named,equal⟩
        · exact .inl first
        · exact .inr ⟨r',List.mem_append_left _ listed,named,equal⟩

theorem registeredFor_ne_nil {registrations : List Registration} {event_type : String} {revision : UInt16} :
    registeredFor registrations event_type revision ≠ [] ↔ ∃ r ∈ registrations, r.1 = event_type ∧ r.2.1 = revision := by
  rw [registeredFor,Ne,List.map_eq_nil_iff,List.filter_eq_nil_iff]
  simp

/-- The registrations of each pair come in the same order. -/
def SameOrder (registrations registrations' : List Registration) : Prop :=
  ∀ event_type revision, registeredFor registrations event_type revision = registeredFor registrations' event_type revision

theorem SameOrder.symm {registrations registrations' : List Registration} (same : SameOrder registrations registrations') :
    SameOrder registrations' registrations := fun event_type revision => (same event_type revision).symm

theorem SameOrder.latest_le {registrations registrations' : List Registration} (same : SameOrder registrations registrations') (event_type : String) :
    (filled registrations).latest_revision event_type ≤ (filled registrations').latest_revision event_type := by
  obtain ⟨_,_,reached⟩ := latest_filled registrations event_type
  obtain ⟨upper,least,_⟩ := latest_filled registrations' event_type
  rcases reached with first | ⟨r,listed,named,equal⟩
  · rw [first]
    exact least
  · have present : registeredFor registrations event_type r.2.1 ≠ [] := registeredFor_ne_nil.mpr ⟨r,listed,named,rfl⟩
    rw [same] at present
    obtain ⟨r',listed',named',revision⟩ := registeredFor_ne_nil.mp present
    rw [equal,← revision]
    exact upper r' listed' named'

/-- Registrations of different pairs may change places. -/
theorem upcast_order {registrations registrations' : List Registration} (same : SameOrder registrations registrations') (event_type : String)
    (rev : UInt16) (payload : Json) :
    (filled registrations).upcast event_type rev payload = (filled registrations').upcast event_type rev payload := by
  have latest : (filled registrations).latest_revision event_type = (filled registrations').latest_revision event_type :=
    UInt16.le_antisymm (same.latest_le event_type) (same.symm.latest_le event_type)
  have steps : (filled registrations).step event_type = (filled registrations').step event_type := by
    funext revision
    rw [step_filled,step_filled,same]
  rw [upcast,upcast,latest,steps]

end UpcasterRegistry

/-! ## The event log -/

def event_type_to_str : EventType → String
  | .Interaction => "Interaction"
  | .ToolCall => "ToolCall"
  | .MemoryOp => "MemoryOp"
  | .SystemEvent => "SystemEvent"
  | .OutcomeSignal => "OutcomeSignal"

/-- The backend with a registry: events get the latest revision it knows. -/
def SqliteBackend.with_upcaster_registry (backend : SqliteBackend) (registry : UpcasterRegistry) : SqliteBackend :=
  { backend with latest_revision := fun event_type => (registry.latest_revision (event_type_to_str event_type)).toNat }

namespace EventStore
variable (reparse : Json → Option Json) (registry : UpcasterRegistry)

/-- The row as it is read. The payload is what the parser makes of the text that was written
    for it. -/
def row_to_event (row : Event) : Except MemoryError Event :=
  if row.timestamp.Readable ∧ (∀ t ∈ row.created_at, t.Readable) ∧ row.event_revision < 2 ^ 16 then
    match reparse row.payload with
    | some payload => .ok { row with payload := payload }
    | none => .error (.Storage "row conversion failed")
  else .error (.Storage "row conversion failed")

def get (id : Int) : Sql Event := do
  let row ← query fun t => t.events.find id
  match row with
  | some row => row_to_event reparse row
  | none => throw (.NotFound s!"event {id}")

/-- The revision of an event that was read fits sixteen bits. -/
def apply_upcasting (event : Event) : Except UpcastHalt Event := do
  let (new_payload,new_rev) ← registry.upcast (event_type_to_str event.event_type) (UInt16.ofNat event.event_revision) event.payload
  return { event with payload := new_payload, event_revision := new_rev.toNat }

/-- The payload is brought up to the latest revision after the row is read. -/
def get_upcasted (id : Int) : Sql (Except UpcastHalt Event) := do
  let event ← get reparse id
  return apply_upcasting registry event

variable {reparse registry}

theorem row_to_event_ok {row e : Event} : row_to_event reparse row = .ok e ↔
    (row.timestamp.Readable ∧ (∀ t ∈ row.created_at, t.Readable) ∧ row.event_revision < 2 ^ 16) ∧
      ∃ payload, reparse row.payload = some payload ∧ e = { row with payload := payload } := by
  unfold row_to_event
  by_cases readable : row.timestamp.Readable ∧ (∀ t ∈ row.created_at, t.Readable) ∧ row.event_revision < 2 ^ 16
  · rw [if_pos readable]
    cases parsed : reparse row.payload with
    | none => simp
    | some payload =>
      simp only [Except.ok.injEq,Option.some.injEq]
      constructor
      · rintro rfl
        exact ⟨readable,payload,rfl,rfl⟩
      · rintro ⟨_,_,rfl,rfl⟩
        rfl
  · rw [if_neg readable]
    simp only [reduceCtorEq,false_iff,not_and]
    exact fun columns => absurd columns readable

theorem commits_get {s t : Db} {id : Int} {e : Event} : Commits (get reparse id) s e t ↔
    t = s ∧ ∃ row ∈ s.events.rows, row.id = id ∧ row_to_event reparse row = .ok e := by
  simp only [get,commits_bind,commits_query]
  constructor
  · rintro ⟨read,m,⟨same_,at_⟩,converted⟩
    subst same_ at_
    cases found : m.events.find id with
    | none =>
      rw [found] at converted
      exact absurd converted commits_throw
    | some row =>
      rw [found] at converted
      obtain ⟨member,same⟩ := Table.find_eq_some.mp found
      obtain ⟨made,rfl⟩ := commits_lift.mp converted
      exact ⟨rfl,row,member,same,made⟩
  · rintro ⟨rfl,row,member,same,made⟩
    refine ⟨_,_,⟨rfl,rfl⟩,?_⟩
    rw [Table.find_eq_some.mpr ⟨member,same⟩]
    exact commits_lift.mpr ⟨made,rfl⟩

theorem commits_get_upcasted {s t : Db} {id : Int} {result : Except UpcastHalt Event} : Commits (get_upcasted reparse registry id) s result t ↔
    t = s ∧ ∃ row ∈ s.events.rows, row.id = id ∧ ∃ e, row_to_event reparse row = .ok e ∧ result = apply_upcasting registry e := by
  simp only [get_upcasted,commits_bind,commits_get,commits_pure]
  constructor
  · rintro ⟨e,_,⟨rfl,row,member,same,made⟩,rfl,rfl⟩
    exact ⟨rfl,row,member,same,e,made,rfl⟩
  · rintro ⟨rfl,row,member,same,e,made,rfl⟩
    exact ⟨e,_,⟨rfl,row,member,same,made⟩,rfl,rfl⟩

/-- A row at the latest revision stays as it is. -/
theorem apply_upcasting_latest {e : Event} (latest : e.event_revision = (registry.latest_revision (event_type_to_str e.event_type)).toNat) :
    apply_upcasting registry e = .ok e := by
  have revision : UInt16.ofNat e.event_revision = registry.latest_revision (event_type_to_str e.event_type) := by
    rw [latest,UInt16.ofNat_toNat]
  rw [apply_upcasting,revision,UpcasterRegistry.upcast_above (UInt16.le_refl _)]
  simp only [bind,Except.bind,pure,Except.pure,← latest]

/-- An event that the registry has just stamped reads back as it was inserted while its row
    stands. -/
theorem get_upcasted_insert {backend : SqliteBackend} {event : NewEvent} {s t later : Db} {id : Int}
    (inserted : Commits (insert (backend.with_upcaster_registry registry) event) s id t) (stands : ∀ row ∈ t.events.rows, row ∈ later.events.rows)
    (dated : event.timestamp.Readable) (created : ∀ c ∈ event.created_at, c.Readable) (parses : reparse event.payload = some event.payload) :
    Commits (get_upcasted reparse registry id) later (.ok (newRow (backend.with_upcaster_registry registry) event id)) later := by
  obtain ⟨rfl,written⟩ := commits_insert.mp inserted
  have member : newRow (backend.with_upcaster_registry registry) event s.events.nextId ∈ t.events.rows := by
    rw [written,Table.mem_insert]
    exact .inr rfl
  refine commits_get_upcasted.mpr ⟨rfl,_,stands _ member,rfl,_,row_to_event_ok.mpr ⟨⟨dated,created,?_⟩,_,parses,rfl⟩,?_⟩
  · exact UInt16.toNat_lt _
  · exact (apply_upcasting_latest rfl).symm

end EventStore

open UpcasterRegistry

/-- Whatever was registered, a call ends without an overflow: at or above the latest revision
    with what it was given, below it with what the steps compose to or with the error of the
    first that does not succeed. Registrations of different pairs may change places, and an
    event that is inserted and whose columns read back comes back unchanged. -/
theorem upcast_composes (registrations : List Registration) (event_type : String) (rev : UInt16) (payload : Json) :
    (filled registrations).upcast event_type rev payload ≠ .error .overflow ∧
    ((filled registrations).latest_revision event_type ≤ rev → (filled registrations).upcast event_type rev payload = .ok (payload,rev)) ∧
    (rev < (filled registrations).latest_revision event_type → ∀ steps, Registered ((filled registrations).step event_type) rev steps →
      rev.toNat + steps.length = ((filled registrations).latest_revision event_type).toNat → ∀ out, composed steps payload = .ok out →
        (filled registrations).upcast event_type rev payload = .ok (out,(filled registrations).latest_revision event_type)) ∧
    (∀ e, (filled registrations).upcast event_type rev payload = .error (.error e) ↔
      ∃ steps out, Registered ((filled registrations).step event_type) rev steps ∧
        rev.toNat + steps.length < ((filled registrations).latest_revision event_type).toNat ∧ composed steps payload = .ok out ∧
        ((filled registrations).step event_type (after rev steps) = none ∧ e = missing event_type (after rev steps) (after rev steps + 1) ∨
          ∃ func, (filled registrations).step event_type (after rev steps) = some func ∧ func out = .error e)) ∧
    (∀ registrations', SameOrder registrations registrations' →
      (filled registrations').upcast event_type rev payload = (filled registrations).upcast event_type rev payload) ∧
    ∀ (backend : SqliteBackend) (reparse : Json → Option Json) (event : NewEvent) (s t later : Db) (id : Int),
      Commits (EventStore.insert (backend.with_upcaster_registry (filled registrations)) event) s id t →
      (∀ row ∈ t.events.rows, row ∈ later.events.rows) → event.timestamp.Readable → (∀ c ∈ event.created_at, c.Readable) →
      reparse event.payload = some event.payload →
      Commits (EventStore.get_upcasted reparse (filled registrations) id) later
        (.ok (EventStore.newRow (backend.with_upcaster_registry (filled registrations)) event id)) later := by
  refine ⟨upcast_total _ _ _ _,upcast_above,?_,fun e => upcast_error_iff,fun _ same => (upcast_order same _ _ _).symm,?_⟩
  · intro below steps registered whole out done
    exact (upcast_ok_iff below).mpr ⟨rfl,steps,registered,whole,done⟩
  · intro backend reparse event s t later id inserted stands dated created parses
    exact EventStore.get_upcasted_insert inserted stands dated created parses

namespace Sample

/-- A step that fails with the error for a missing step. -/
def unsourced : Registration := ("Interaction",1,fun _ => .error (.MissingUpcaster "no source"))

/-- Arrays in arrays. -/
def nested : Nat → Json
  | 0 => .null
  | depth + 1 => .arr [nested depth]

theorem depth_nested (depth : Nat) : (nested depth).depth = depth := by
  induction depth with
  | zero => rfl
  | succ depth ih => simp [nested,Json.depth,Json.itemDepth,ih]

def deep : NewEvent := ⟨moment,.Interaction,nested Json.RECURSION_LIMIT,"source",none,1,"node",0,none⟩

/-- What the parser makes of a document that was written, up to its nesting limit. -/
def reparse (payload : Json) : Option Json := if payload.Parses then some payload else none

end Sample

/-- A registered step may itself fail with the error for a missing one, and a payload nested
    too deep is written but does not read back. -/
theorem upcast_deviates :
    (¬ ∀ (registrations : List Registration) (event_type : String) (rev : UInt16) (payload : Json),
      (∃ message, (filled registrations).upcast event_type rev payload = .error (.error (.MissingUpcaster message))) ↔
        ∃ steps out, Registered ((filled registrations).step event_type) rev steps ∧
          rev.toNat + steps.length < ((filled registrations).latest_revision event_type).toNat ∧ composed steps payload = .ok out ∧
          (filled registrations).step event_type (after rev steps) = none) ∧
    ¬ ∀ (registrations : List Registration) (backend : SqliteBackend) (event : NewEvent) (s t : Db) (id : Int),
      Commits (EventStore.insert (backend.with_upcaster_registry (filled registrations)) event) s id t →
      Commits (EventStore.get_upcasted Sample.reparse (filled registrations) id) t
        (.ok (EventStore.newRow (backend.with_upcaster_registry (filled registrations)) event id)) t := by
  constructor
  · intro claim
    have stepped : (filled [Sample.unsourced]).step "Interaction" 1 = some Sample.unsourced.2.2 := by
      rw [step_filled]
      rfl
    have latest : (filled [Sample.unsourced]).latest_revision "Interaction" = 2 := by decide
    have failed : (filled [Sample.unsourced]).upcast "Interaction" 1 .null = .error (.error (.MissingUpcaster "no source")) :=
      upcast_error_iff.mpr ⟨[],.null,trivial,by rw [latest]; decide,rfl,.inr ⟨_,stepped,rfl⟩⟩
    obtain ⟨steps,out,_,inside,_,none_⟩ := (claim _ _ _ _).mp ⟨_,failed⟩
    rw [latest] at inside
    have first : steps = [] := by
      have short : (1 : UInt16).toNat + steps.length < 2 := inside
      have one : (1 : UInt16).toNat = 1 := rfl
      exact List.length_eq_zero_iff.mp (by omega)
    rw [first,after_nil,stepped] at none_
    cases none_
  · intro claim
    have rooted : Db.fresh.scopes.Has Sample.deep.scope_id := by decide
    obtain ⟨id,t,inserted⟩ := EventStore.insert_commits (Sample.backend.with_upcaster_registry (filled [])) rooted
    obtain ⟨_,row,member,same,e,made,_⟩ := EventStore.commits_get_upcasted.mp (claim [] Sample.backend Sample.deep _ t id inserted)
    obtain ⟨rfl,written⟩ := EventStore.commits_insert.mp inserted
    have only : row = EventStore.newRow (Sample.backend.with_upcaster_registry (filled [])) Sample.deep Db.fresh.events.nextId := by
      rw [written,Table.mem_insert] at member
      rcases member with old | fresh
      · cases old
      · exact fresh
    obtain ⟨_,payload,parsed,_⟩ := EventStore.row_to_event_ok.mp made
    have tooDeep : ¬ Sample.deep.payload.Parses := by
      show ¬ (Sample.nested Json.RECURSION_LIMIT).depth < Json.RECURSION_LIMIT
      rw [Sample.depth_nested]
      exact lt_irrefl _
    have unread : Sample.reparse Sample.deep.payload = none := if_neg tooDeep
    rw [only] at parsed
    exact absurd (unread.symm.trans parsed) (by simp)

end MemoryEngine
