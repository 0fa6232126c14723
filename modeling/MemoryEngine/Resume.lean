import MemoryEngine.DreamCycle
import MemoryEngine.StoragePort

/-! Resuming a session. Four tiers of facts are read one after the other, each
without the facts of the tiers before it, and the due facts among them are
stamped as surfaced. -/

namespace MemoryEngine
open Time KeyedTable Transaction Ranking

/-- The valid time has come and has not ended. -/
def Fact.is_temporally_due (now : DateTime) (f : Fact) : Bool :=
  f.t_valid.any (fun tv => tv ≤ now) && f.t_invalid.all (fun ti => now < ti)

namespace FactStore
variable (self : SqliteBackend)

/-- The same test as SQL compares it. -/
def dueByText (now : DateTime) (f : Fact) : Bool :=
  f.t_valid.any (fun tv => !now.textLt tv) && f.t_invalid.all (fun ti => now.textLt ti)

/-- The text of the valid time; a NULL sorts before every text. -/
def validText (f : Fact) : String := (f.t_valid.map DateTime.to_rfc3339).getD ""

/-- Active facts that are due, from the earliest valid time on. -/
def list_due (rows : Shuffle Fact) (now : DateTime) (scope_ids : List Int) (exclude : List FactId) (limit : Option Nat) :
    Sql (List Fact) := do
  let listed ← query fun t =>
    let due := descending (fun f => OrderDual.toDual (validText f)) ((rows.order t.facts.rows).filter fun f =>
      f.t_expired.isNone && dueByText now f && inScopes scope_ids f && !exclude.contains f.id)
    match limit with
    | some n => due.take (limit_i64 n)
    | none => due
  rows_to_facts self.embed_dim listed

/-- Active facts of the given scopes, from the latest on; no scope, no facts. -/
def list_by_scopes_recent (rows : Shuffle Fact) (scope_ids : List Int) (limit : Nat) (exclude_ids : List FactId) :
    Sql (List Fact) := do
  let listed ← query fun t =>
    let kept := (rows.order t.facts.rows).filter fun f =>
      f.t_expired.isNone && scope_ids.contains f.scope_id && !exclude_ids.contains f.id
    (descending (fun f => f.t_created.to_rfc3339) kept).take (limit_i64 limit)
  rows_to_facts self.embed_dim listed

end FactStore

structure ResumeConfig where
  scope_path : Option String := none
  now : Option DateTime := none
  pinned_cap : Nat := 50
  high_importance_cap : Nat := 20
  /-- The double nearest to 0.7. -/
  high_importance_min : F64 := F64.ofRat (3152519739159347 / 2 ^ 52)
  due_cap : Nat := 10
  recent_cap : Nat := 10

namespace ResumeConfig

def caps (config : ResumeConfig) : List (String × Nat) :=
  [("pinned_cap",config.pinned_cap),("high_importance_cap",config.high_importance_cap),("due_cap",config.due_cap),
    ("recent_cap",config.recent_cap)]

def validate (self : SqliteBackend) (config : ResumeConfig) : Except MemoryError Unit :=
  if !Consolidate.unitInterval config.high_importance_min then .error (.Conflict (.PolicyParameter
    s!"high_importance_min must be in [0.0, 1.0], got {self.display config.high_importance_min}")) else
  match config.caps.find? (fun cap => cap.2 == 0) with
  | some (name,_) => .error (.Conflict (.PolicyParameter s!"{name} must be greater than 0, got 0"))
  | none => .ok ()

/-- A valid configuration has room in every tier. -/
theorem caps_pos {self : SqliteBackend} {config : ResumeConfig} (valid : config.validate self = .ok ()) :
    0 < config.pinned_cap ∧ 0 < config.high_importance_cap ∧ 0 < config.due_cap ∧ 0 < config.recent_cap := by
  unfold validate at valid
  split at valid
  · cases valid
  cases zero : config.caps.find? (fun cap => cap.2 == 0) with
  | some cap =>
    rw [zero] at valid
    cases valid
  | none =>
    have all := List.find?_eq_none.mp zero
    simp only [caps,List.forall_mem_cons,beq_iff_eq,← Nat.pos_iff_ne_zero] at all
    exact ⟨all.1,all.2.1,all.2.2.1,all.2.2.2.1⟩

theorem default_valid (self : SqliteBackend) : validate self {} = .ok () := by
  have inside : Consolidate.unitInterval (F64.ofRat (3152519739159347 / 2 ^ 52)) = true := by decide +kernel
  simp [validate,inside,caps]

end ResumeConfig

structure ResumeContext where
  pinned : List Fact
  high_importance : List Fact
  due : List Fact
  recent : List Fact

namespace ResumeContext

/-- The facts of all tiers. -/
def facts (context : ResumeContext) : List Fact := context.pinned ++ context.high_importance ++ context.due ++ context.recent

def map (change : Fact → Fact) (context : ResumeContext) : ResumeContext :=
  ⟨context.pinned.map change,context.high_importance.map change,context.due.map change,context.recent.map change⟩

@[simp] theorem map_facts (change : Fact → Fact) (context : ResumeContext) :
    (context.map change).facts = context.facts.map change := by
  simp [map,facts]

@[simp] theorem map_id (context : ResumeContext) : context.map id = context := by
  simp [map]

theorem map_congr {change change' : Fact → Fact} {context : ResumeContext} (same : ∀ f ∈ context.facts, change f = change' f) :
    context.map change = context.map change' := by
  simp only [facts,List.mem_append] at same
  simp only [map,mk.injEq]
  exact ⟨List.map_congr_left fun f listed => same f (.inl (.inl (.inl listed))),
    List.map_congr_left fun f listed => same f (.inl (.inl (.inr listed))),
    List.map_congr_left fun f listed => same f (.inl (.inr listed)),List.map_congr_left fun f listed => same f (.inr listed)⟩

end ResumeContext

/-- The orders in which the four queries meet the rows. -/
structure ResumeScans where
  pinned : Shuffle Fact
  high_importance : Shuffle Fact
  due : Shuffle Fact
  recent : Shuffle Fact

/-- The scope of the path with its ancestors, or the root. -/
def resume_scope_ids (tree : ScopeTree) : Option String → Except MemoryError (List Int)
  | some path =>
    match tree.resolve_path path with
    | some id => .ok (tree.ancestors id)
    | none => .error (.NotFound s!"scope path: {path}")
  | none => .ok [ScopeTree.ROOT_ID]

/-- Put the stamp of the store on a fact. The stamps come from rows, one for an id. -/
def apply_surfaced_stamps (stamped : List (FactId × DateTime)) (fact : Fact) : Fact :=
  match stamped.lookup fact.id with
  | some ts => { fact with surfaced_at := some ts }
  | none => fact

/-- A read-only pool hands out no connection that writes. -/
def stamp_surfaced_facts (ctx : MemoryCtx) (fact_ids : List FactId) (now : DateTime) : Op (List (FactId × DateTime)) := do
  ctx.ensure_writable
  let stamped ← port (FactStore.stamp_surfaced fact_ids now)
  liftM stamped

/-- The clock is read where the configuration names no instant. -/
def resume_context (ctx : MemoryCtx) (scans : ResumeScans) (config : ResumeConfig) (clock : DateTime) : Op ResumeContext := do
  ctx.ensure_open
  config.validate ctx.backend
  let now := config.now.getD clock
  let engine ← get
  let scope_ids ← resume_scope_ids engine.scope_tree config.scope_path
  let pinned ← port (FactStore.list_pinned ctx.backend scans.pinned [] config.pinned_cap)
  let seen := pinned.map Fact.id
  let high_importance ← port (FactStore.list_by_importance_score ctx.backend scans.high_importance scope_ids config.high_importance_min
    config.high_importance_cap seen)
  let seen := seen ++ high_importance.map Fact.id
  let due ← port (FactStore.list_due ctx.backend scans.due now scope_ids seen (some config.due_cap))
  let seen := seen ++ due.map Fact.id
  let recent ← port (FactStore.list_by_scopes_recent ctx.backend scans.recent scope_ids config.recent_cap seen)
  let context : ResumeContext := ⟨pinned,high_importance,due,recent⟩
  let unsurfaced_ids := (context.facts.filter fun f => f.surfaced_at.isNone && f.is_temporally_due now).map Fact.id
  if unsurfaced_ids = [] then return context else do
    let stamped ← stamp_surfaced_facts ctx unsurfaced_ids now
    return context.map (apply_surfaced_stamps stamped)

end MemoryEngine
