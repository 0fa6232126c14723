import MemoryEngine.GraphEdit

/-! Conflict resolution. The arbiter decides on the old fact as it was read; one
transaction then does what the decision says, and the graph follows after the
commit. -/

namespace MemoryEngine
open Time KeyedTable Transaction GraphEdit

def CONFLICT_SUPPLEMENTS_RELATION : String := "supplements"
def CONFLICT_CONTRADICTS_RELATION : String := "contradicts"
def CONFLICT_EDGE_WEIGHT : F64 := F64.ofRat 1

/-- The consumer's arbiter, called with the stored fact and the candidate. -/
abbrev ConflictArbiter := Fact → NewFact → Except MemoryError CrudDecision

structure ConflictResolution where
  decision : CrudDecision
  old_fact_id : FactId
  new_fact_id : Option FactId

namespace Resolve
variable (self : SqliteBackend)

/-- Expire and invalidate the old fact, then expire its edges. -/
def cascade_expire (old_id : FactId) (now : DateTime) : Sql Unit := do
  FactStore.expire_and_invalidate old_id now
  let _ ← EdgeStore.expire_by_fact old_id now

def conflictEdge (new_id old_id scope_id : Int) (relation : String) (weight : F64) (now : DateTime) : NewEdge where
  source_fact_id := new_id
  target_fact_id := old_id
  relation_type := RelationType.from relation
  weight := weight
  t_created := now
  t_expired := none
  scope_id := scope_id

/-- Insert the candidate and its edge to the old fact. -/
def insertLinked (old_id : FactId) (new_fact : NewFact) (relation : String) (weight : F64) (now : DateTime) :
    Sql (Option FactId × Option Int) := do
  let new_id ← FactStore.insert self new_fact
  let edge_id ← EdgeStore.insert (conflictEdge new_id old_id new_fact.scope_id relation weight now)
  return (some new_id,some edge_id)

def resolve_conflict_atomic (decision : CrudDecision) (old_id : FactId) (new_fact : NewFact) (relation : String) (weight : F64)
    (now : DateTime) : Sql (Option FactId × Option Int) :=
  match decision with
  | .Noop => return (none,none)
  | .Add => do
    let active ← FactStore.is_active old_id
    require (active = true) (.NotFound s!"fact {old_id} is no longer active (expired since arbitration)")
    insertLinked self old_id new_fact relation weight now
  | .Update => do
    cascade_expire old_id now
    insertLinked self old_id new_fact relation weight now
  | .Delete => do
    cascade_expire old_id now
    return (none,none)

/-- Delete and Noop create no edge. -/
def relationFor : CrudDecision → String
  | .Add => CONFLICT_SUPPLEMENTS_RELATION
  | .Update => CONFLICT_CONTRADICTS_RELATION
  | .Delete => ""
  | .Noop => ""

/-- Add the committed edge, when there is one. -/
def mirrorEdge (old_id : FactId) (relation : String) (ids : Option FactId × Option Int) (g : MemoryGraph) : MemoryGraph :=
  match ids with
  | (some new_id,some edge_id) => g.add_edge new_id old_id ⟨edge_id,RelationType.from relation,CONFLICT_EDGE_WEIGHT⟩
  | _ => g

def mirrorResolution (decision : CrudDecision) (old_id : FactId) (ids : Option FactId × Option Int) (g : MemoryGraph) :
    MemoryGraph :=
  match decision with
  | .Add => mirrorEdge old_id (relationFor .Add) ids g
  | .Update => mirrorEdge old_id (relationFor .Update) ids (g.remove_edges_by_fact old_id)
  | .Delete => g.remove_edges_by_fact old_id
  | .Noop => g

end Resolve

def resolve_conflict (ctx : MemoryCtx) (arbiter : ConflictArbiter) (old_id : FactId) (new_fact : NewFact) (now : DateTime) :
    Op ConflictResolution := do
  ctx.ensure_open
  ctx.ensure_writable
  check_new_fact ctx.backend.float_text new_fact
  let old_fact ← port (FactStore.get ctx.backend old_id)
  let decision ← arbiter old_fact new_fact
  let ids ← port (Resolve.resolve_conflict_atomic ctx.backend decision old_id new_fact (Resolve.relationFor decision)
    CONFLICT_EDGE_WEIGHT now)
  mirror (Resolve.mirrorResolution decision old_id ids)
  return ⟨decision,old_id,ids.1⟩

namespace Resolve
variable {self : SqliteBackend}

/-- The edge a resolution creates. -/
def created (old_id : FactId) (relation : String) : Option FactId × Option Int → List GraphEdgeSnapshot
  | (some new_id,some edge_id) => [⟨edge_id,new_id,old_id,RelationType.from relation,CONFLICT_EDGE_WEIGHT⟩]
  | _ => []

/-- What a decision does to the edges. -/
def edit (decision : CrudDecision) (old_id : FactId) (ids : Option FactId × Option Int) : GraphEdit :=
  match decision with
  | .Add => adding (created old_id (relationFor .Add) ids)
  | .Update => ⟨(dropping [old_id]).drop,created old_id (relationFor .Update) ids⟩
  | .Delete => dropping [old_id]
  | .Noop => skip

theorem edits_insertLinked {decision : CrudDecision} {old_id : FactId} {new_fact : NewFact} {now : DateTime} {s t : Db}
    {ids : Option FactId × Option Int}
    (committed : Commits (insertLinked self old_id new_fact (relationFor decision) CONFLICT_EDGE_WEIGHT now) s ids t) :
    Edits (adding (created old_id (relationFor decision) ids)) s t := by
  obtain ⟨new_id,m,stored,rest⟩ := commits_bind.mp committed
  obtain ⟨edge_id,m',linked,last⟩ := commits_bind.mp rest
  obtain ⟨rfl,rfl⟩ := commits_pure.mp last
  have after := Edits.after (FactStore.keepsEdges_insert self _ _ _ _ stored) (EdgeStore.edits_insert rfl linked)
  cases decision <;> exact after

theorem edits_cascade {old_id : FactId} {now : DateTime} {s t : Db} {u : Unit}
    (committed : Commits (cascade_expire old_id now) s u t) : Edits (dropping [old_id]) s t := by
  obtain ⟨_,m,expired,rest⟩ := commits_bind.mp committed
  obtain ⟨n,m',cascaded,last⟩ := commits_bind.mp rest
  obtain ⟨_,rfl⟩ := commits_pure.mp last
  exact Edits.after (FactStore.keepsEdges_updateActive _ _ _ _ _ _ expired) (EdgeStore.edits_expire_by_fact cascaded)

theorem view_mirrorEdge (old_id : FactId) (relation : String) (ids : Option FactId × Option Int) (g : MemoryGraph) :
    (mirrorEdge old_id relation ids g).view = (adding (created old_id relation ids)).apply g.view := by
  unfold mirrorEdge
  split
  · rw [MemoryGraph.view_add_edge_as]
    rfl
  · rename_i absent
    have nothing : created old_id relation ids = [] := by
      unfold created
      split
      · exact absurd rfl (absent _ _)
      · rfl
    rw [nothing,adding_apply,Multiset.coe_nil,Multiset.add_zero]

/-- The commit carries out the edit of its decision. -/
theorem edits {decision : CrudDecision} {old_id : FactId} {new_fact : NewFact} {now : DateTime} {s t : Db}
    {ids : Option FactId × Option Int}
    (committed : Commits (resolve_conflict_atomic self decision old_id new_fact (relationFor decision) CONFLICT_EDGE_WEIGHT now)
      s ids t) : Edits (edit decision old_id ids) s t := by
  cases decision with
  | Noop =>
    obtain ⟨rfl,rfl⟩ := commits_pure.mp committed
    exact Edits.of_same (SameEdges.refl _)
  | Add =>
    obtain ⟨active,m,found,rest⟩ := commits_bind.mp committed
    obtain ⟨_,rfl⟩ := FactStore.commits_is_active.mp found
    obtain ⟨_,m',checked,last⟩ := commits_bind.mp rest
    obtain ⟨_,rfl⟩ := commits_require.mp checked
    exact edits_insertLinked last
  | Update =>
    obtain ⟨_,m,cascaded,last⟩ := commits_bind.mp committed
    exact Edits.replacing (edits_cascade cascaded) (edits_insertLinked last)
  | Delete =>
    obtain ⟨_,m,cascaded,last⟩ := commits_bind.mp committed
    obtain ⟨_,rfl⟩ := commits_pure.mp last
    exact edits_cascade cascaded

/-- So does the graph, with the primitives of its own. -/
theorem replays (decision : CrudDecision) (old_id : FactId) (ids : Option FactId × Option Int) :
    Replays (edit decision old_id ids) (mirrorResolution decision old_id ids) := by
  intro g _
  cases decision with
  | Noop => exact (skip_apply g.view).symm
  | Add => exact view_mirrorEdge _ _ _ g
  | Update =>
    rw [mirrorResolution,view_mirrorEdge,MemoryGraph.view_remove_edges_by_fact_as,adding_apply]
    simp [edit,apply,full,dropping,Mirror.Edit.apply]
  | Delete => exact MemoryGraph.view_remove_edges_by_fact_as g old_id

end Resolve
end MemoryEngine
