import MemoryEngine.Resolve

/-! What one call of the resolution leaves in the store. The store it starts from
is arbitrary: whatever other operations did to the old fact after the arbiter
saw it is part of that store. -/

namespace MemoryEngine
open Time KeyedTable Transaction

namespace Resolve
variable {self : SqliteBackend}

/-- An edge the cascade rewrites: active and at the old fact. -/
def retired (old_id : FactId) (now : DateTime) (e : Edge) : Edge :=
  if EdgeStore.incident old_id e && e.active then { e with t_expired := some now } else e

/-- The old fact was active and is now expired and invalidated. -/
structure Retires (old_id : FactId) (now : DateTime) (s t : Db) : Prop where
  was_active : s.IsActive old_id
  expired : ∃ f ∈ t.facts.rows, f.id = old_id ∧ f.t_expired = some now ∧ f.t_invalid = some now
  cascaded : ∀ e ∈ s.edges.rows, e.active = true → EdgeStore.incident old_id e = true →
    { e with t_expired := some now } ∈ t.edges.rows

/-- The edge a resolution creates: active, new, from the new fact to the old one. -/
structure Links (old_id : FactId) (ids : Option FactId × Option Int) (s t : Db) (edge : Edge) : Prop where
  returned : ids = (some edge.source_fact_id,some edge.id)
  target : edge.target_fact_id = old_id
  active : edge.active = true
  source_new : ¬ s.facts.Has edge.source_fact_id ∧ t.facts.Has edge.source_fact_id
  edge_new : ¬ s.edges.Has edge.id

/-- What each decision must have done when the call returns. -/
def Outcome (decision : CrudDecision) (old_id : FactId) (now : DateTime) (ids : Option FactId × Option Int) (s t : Db) : Prop :=
  match decision with
  | .Noop => ids = (none,none) ∧ t = s
  | .Add => t.IsActive old_id ∧ ∃ edge, Links old_id ids s t edge ∧ t.edges.rows = s.edges.rows ++ [edge]
  | .Update => Retires old_id now s t ∧ ∃ edge, Links old_id ids s t edge ∧
      t.edges.rows = s.edges.rows.map (retired old_id now) ++ [edge] ∧
      ∀ e ∈ t.edges.rows, EdgeStore.incident old_id e = true → e.active = true → e = edge
  | .Delete => Retires old_id now s t ∧ ids = (none,none) ∧ t.edges.rows = s.edges.rows.map (retired old_id now) ∧
      ∀ e ∈ t.edges.rows, EdgeStore.incident old_id e = true → e.active = false

/-- No new edge points at a fact that was not active before. -/
def NoStaleTarget (s t : Db) : Prop := ∀ e ∈ t.edges.rows, ¬ s.edges.Has e.id → s.IsActive e.target_fact_id

theorem retired_id (old_id : FactId) (now : DateTime) (e : Edge) : (retired old_id now e).id = e.id := by
  unfold retired
  split <;> rfl

theorem retired_incident (old_id : FactId) (now : DateTime) (e : Edge) :
    EdgeStore.incident old_id (retired old_id now e) = EdgeStore.incident old_id e := by
  unfold retired
  split <;> rfl

/-- After the cascade no edge at the old fact is active. -/
theorem retired_inactive {old_id : FactId} {now : DateTime} {e : Edge} (incident : EdgeStore.incident old_id e = true) :
    (retired old_id now e).active = false := by
  unfold retired
  by_cases active : e.active = true
  · rw [if_pos (by simp [incident,active])]
    rfl
  · rw [if_neg (by simp [active])]
    simpa using active

/-- What the cascade commits. -/
theorem commits_cascade {old_id : FactId} {now : DateTime} {s t : Db} {u : Unit} (committed : Commits (cascade_expire old_id now) s u t) :
    Retires old_id now s t ∧ t.edges.rows = s.edges.rows.map (retired old_id now) ∧ ∀ id, t.facts.Has id ↔ s.facts.Has id := by
  obtain ⟨_,m,expired,rest⟩ := commits_bind.mp committed
  obtain ⟨n,m',cascaded,last⟩ := commits_bind.mp rest
  obtain ⟨_,rfl⟩ := commits_pure.mp last
  obtain ⟨active,facts⟩ := FactStore.commits_updateActive.mp expired
  obtain ⟨_,edges⟩ := EdgeStore.commits_expire_by_fact.mp cascaded
  have rows : t.edges.rows = s.edges.rows.map (retired old_id now) := by
    rw [edges,EdgeStore.expireRows,facts]
    rfl
  have same_facts : t.facts = m.facts := by rw [edges]; rfl
  refine ⟨⟨active,?_,?_⟩,rows,fun id => ?_⟩
  · obtain ⟨f,member,rfl,live⟩ := active
    refine ⟨{ f with t_expired := some now, t_invalid := some now },?_,rfl,rfl,rfl⟩
    rw [same_facts,facts,Table.mem_update]
    exact ⟨f,member,by simp [live]⟩
  · intro e member live incident
    rw [rows]
    exact List.mem_map.mpr ⟨e,member,by simp [retired,live,incident]⟩
  · rw [same_facts,facts,Table.has_update]

/-- What the insertion of the candidate and its edge commits. -/
theorem commits_insertLinked {old_id : FactId} {new_fact : NewFact} {relation : String} {weight : F64} {now : DateTime}
    {m t : Db} {ids : Option FactId × Option Int} (committed : Commits (insertLinked self old_id new_fact relation weight now) m ids t) :
    ∃ edge, Links old_id ids m t edge ∧ t.edges.rows = m.edges.rows ++ [edge] ∧ ∀ f ∈ m.facts.rows, f ∈ t.facts.rows := by
  obtain ⟨new_id,m',stored,rest⟩ := commits_bind.mp committed
  obtain ⟨edge_id,m'',linked,last⟩ := commits_bind.mp rest
  obtain ⟨rfl,rfl⟩ := commits_pure.mp last
  obtain ⟨_,importance,_,rfl,facts⟩ := FactStore.commits_insert.mp stored
  obtain ⟨value,_,rfl,edges⟩ := EdgeStore.commits_insert.mp linked
  have same_edges : m'.edges = m.edges := by rw [facts]
  have same_facts : t.facts = m'.facts := by rw [edges]
  refine ⟨EdgeStore.newRow (conflictEdge m.facts.nextId old_id new_fact.scope_id relation weight now) value m'.edges.nextId,
    ⟨rfl,rfl,rfl,⟨m.facts.not_has_nextId,?_⟩,?_⟩,?_,?_⟩
  · show t.facts.Has m.facts.nextId
    rw [same_facts,facts,Table.has_insert]
    exact .inr rfl
  · show ¬ m.edges.Has m'.edges.nextId
    rw [same_edges]
    exact m.edges.not_has_nextId
  · rw [edges,← same_edges]
    rfl
  · intro f member
    rw [same_facts,facts,Table.mem_insert]
    exact .inl member

/-- Every commit of the resolution is the outcome of its decision. -/
theorem commits_outcome {decision : CrudDecision} {old_id : FactId} {new_fact : NewFact} {relation : String} {weight : F64}
    {now : DateTime} {s t : Db} {ids : Option FactId × Option Int}
    (committed : Commits (resolve_conflict_atomic self decision old_id new_fact relation weight now) s ids t) :
    Outcome decision old_id now ids s t ∧ NoStaleTarget s t := by
  have known : ∀ e ∈ s.edges.rows, s.edges.Has e.id := fun e member => Table.has_of_mem member
  cases decision with
  | Noop =>
    obtain ⟨rfl,rfl⟩ := commits_pure.mp committed
    exact ⟨⟨rfl,rfl⟩,fun e member fresh => absurd (known e member) fresh⟩
  | Add =>
    obtain ⟨active,m,found,rest⟩ := commits_bind.mp committed
    obtain ⟨rfl,rfl⟩ := FactStore.commits_is_active.mp found
    obtain ⟨_,m',checked,last⟩ := commits_bind.mp rest
    obtain ⟨active,rfl⟩ := commits_require.mp checked
    have live : m'.IsActive old_id := of_decide_eq_true active
    obtain ⟨edge,links,rows,kept⟩ := commits_insertLinked last
    refine ⟨⟨?_,edge,links,rows⟩,?_⟩
    · obtain ⟨f,member,same,open_⟩ := live
      exact ⟨f,kept f member,same,open_⟩
    · intro e member fresh
      rw [rows] at member
      rcases List.mem_append.mp member with old | new
      · exact absurd (known e old) fresh
      · rw [List.mem_singleton.mp new,links.target]
        exact live
  | Update =>
    obtain ⟨_,m,cascaded,last⟩ := commits_bind.mp committed
    obtain ⟨retires,rows,has⟩ := commits_cascade cascaded
    obtain ⟨edge,links,grown,kept⟩ := commits_insertLinked last
    have all : t.edges.rows = s.edges.rows.map (retired old_id now) ++ [edge] := by rw [grown,rows]
    have has_edge : ∀ id, m.edges.Has id ↔ s.edges.Has id := by
      intro id
      simp only [Table.Has,rows,List.mem_map]
      constructor
      · rintro ⟨_,⟨e,member,rfl⟩,same⟩
        exact ⟨e,member,by rw [← same]; exact (retired_id old_id now e).symm⟩
      · rintro ⟨e,member,same⟩
        exact ⟨_,⟨e,member,rfl⟩,(retired_id old_id now e).trans same⟩
    refine ⟨⟨⟨retires.was_active,?_,?_⟩,edge,⟨links.returned,links.target,links.active,⟨?_,links.source_new.2⟩,?_⟩,all,?_⟩,?_⟩
    · obtain ⟨f,member,fields⟩ := retires.expired
      exact ⟨f,kept f member,fields⟩
    · intro e member live incident
      rw [grown]
      exact List.mem_append_left _ (retires.cascaded e member live incident)
    · exact fun held => links.source_new.1 ((has _).mpr held)
    · exact fun held => links.edge_new ((has_edge _).mpr held)
    · intro e member incident live
      rw [all] at member
      rcases List.mem_append.mp member with old | new
      · obtain ⟨e',_,rfl⟩ := List.mem_map.mp old
        rw [retired_incident] at incident
        rw [retired_inactive incident] at live
        cases live
      · exact List.mem_singleton.mp new
    · intro e member fresh
      rw [all] at member
      rcases List.mem_append.mp member with old | new
      · obtain ⟨e',held,rfl⟩ := List.mem_map.mp old
        rw [retired_id] at fresh
        exact absurd (known e' held) fresh
      · rw [List.mem_singleton.mp new,links.target]
        exact retires.was_active
  | Delete =>
    obtain ⟨_,m,cascaded,last⟩ := commits_bind.mp committed
    obtain ⟨rfl,rfl⟩ := commits_pure.mp last
    obtain ⟨retires,rows,_⟩ := commits_cascade cascaded
    refine ⟨⟨retires,rfl,rows,?_⟩,?_⟩
    · intro e member incident
      rw [rows] at member
      obtain ⟨e',_,rfl⟩ := List.mem_map.mp member
      rw [retired_incident] at incident
      exact retired_inactive incident
    · intro e member fresh
      rw [rows] at member
      obtain ⟨e',held,rfl⟩ := List.mem_map.mp member
      rw [retired_id] at fresh
      exact absurd (known e' held) fresh

end Resolve

/-- From every store, the call either hands back an error and leaves the store as it
    was, or returns with the outcome of its decision and no edge to a fact that was
    expired before. -/
theorem resolve_conflict_atomic_outcome (self : SqliteBackend) (decision : CrudDecision) (old_id : FactId) (new_fact : NewFact)
    (relation : String) (weight : F64) (now : DateTime) (s : Db) : ∃ r t,
      Commits (attempt (Resolve.resolve_conflict_atomic self decision old_id new_fact relation weight now)) s r t ∧
      ((∃ e, r = .error e ∧ t = s) ∨
        ∃ ids, r = .ok ids ∧ Resolve.Outcome decision old_id now ids s t ∧ Resolve.NoStaleTarget s t) := by
  cases ran : (Resolve.resolve_conflict_atomic self decision old_id new_fact relation weight now).run s with
  | error e => exact ⟨.error e,s,commits_attempt.mpr (.inr ⟨e,rfl,ran,rfl⟩),.inl ⟨e,rfl,rfl⟩⟩
  | ok value =>
    obtain ⟨ids,t⟩ := value
    exact ⟨.ok ids,t,commits_attempt.mpr (.inl ⟨ids,rfl,ran⟩),.inr ⟨ids,rfl,Resolve.commits_outcome ran⟩⟩

end MemoryEngine
