import MemoryEngine.Resolve
import MemoryEngine.SessionEdges
import MemoryEngine.Forget
import MemoryEngine.Consolidate
import MemoryEngine.Archive

/-! The graph-changing operations run one after another. Each commits an edit of
the active edges and replays it on the graph, or replaces the graph by the
active edges; either way the two stay equal. -/

namespace MemoryEngine
open Time KeyedTable Transaction GraphEdit

/-- A call of one of the graph-changing operations. -/
inductive GraphCall where
  | resolve_conflict (arbiter : ConflictArbiter) (old_id : FactId) (new_fact : NewFact) (now : DateTime)
  | prune (compute_importance : FactScoringRow → Nat → DateTime → ForgetPolicy → F64) (policy : ForgetPolicy) (now : DateTime)
  | link_session_facts (session_id : String) (scope : Option String) (now : DateTime)
  | expire_edge (edge_id : Int) (now : DateTime)
  | consolidate (consolidator : Consolidator) (config : ConsolidationConfig) (now : DateTime)
  | archive (write_pak : ArchivePak → Except MemoryError (String × Int × String)) (policy : ArchivePolicy) (now : DateTime)

/-- Run a call; its result does not matter here. -/
def GraphCall.run (ctx : MemoryCtx) : GraphCall → Op Unit
  | .resolve_conflict arbiter old_id new_fact now => do let _ ← MemoryEngine.resolve_conflict ctx arbiter old_id new_fact now
  | .prune compute_importance policy now => do let _ ← MemoryEngine.prune ctx compute_importance policy now
  | .link_session_facts session_id scope now => do let _ ← MemoryEngine.link_session_facts ctx session_id scope now
  | .expire_edge edge_id now => MemoryEngine.expire_edge ctx edge_id now
  | .consolidate consolidator config now => do let _ ← MemoryEngine.consolidate ctx consolidator config now
  | .archive write_pak policy now => do let _ ← MemoryEngine.archive ctx write_pak policy now

/-- The graph went along with the store, or was built anew from it. -/
def Follows (s t : Engine) : Prop :=
  (∃ e change, Edits e s.storage t.storage ∧ Replays e change ∧ t.graph = change s.graph) ∨ t.Mirrored

theorem Follows.of_unchanged {s t : Engine} (store : SameEdges s.storage t.storage) (graph : t.graph = s.graph) : Follows s t :=
  .inl ⟨skip,id,Edits.of_same store,replays_skip,graph⟩

/-- A graph that equals the store in its triples has distinct edge ids. -/
theorem ids_nodup_of_triples {s : Engine} (mirrored : s.graph.edgeTriples = s.storage.activeTriples) :
    (s.graph.view.map GraphEdgeSnapshot.edge_id).Nodup := by
  have ids : ∀ edges : Multiset GraphEdgeSnapshot,
      edges.map GraphEdgeSnapshot.edge_id = (edges.map GraphEdgeSnapshot.triple).map Prod.fst := by
    intro edges
    rw [Multiset.map_map]
    rfl
  rw [ids]
  change (s.graph.edgeTriples.map Prod.fst).Nodup
  rw [mirrored,Tables.activeTriples,← ids]
  exact activeEdges_ids_nodup _

theorem Follows.triples {s t : Engine} (follows : Follows s t) (mirrored : s.graph.edgeTriples = s.storage.activeTriples) :
    t.graph.edgeTriples = t.storage.activeTriples := by
  rcases follows with ⟨e,change,edits,replays,graph⟩ | equal
  · rw [MemoryGraph.edgeTriples,graph,replays _ (ids_nodup_of_triples mirrored),Tables.activeTriples,edits.store,
      map_apply,map_apply]
    exact congrArg e.triples.apply mirrored
  · rw [MemoryGraph.edgeTriples,Tables.activeTriples,equal]

/-- Whole edges stay equal too, with relation and weight. -/
theorem Follows.mirrored {s t : Engine} (follows : Follows s t) (mirrored : s.Mirrored) : t.Mirrored := by
  rcases follows with ⟨e,change,edits,replays,graph⟩ | equal
  · have distinct : (s.graph.view.map GraphEdgeSnapshot.edge_id).Nodup := by
      rw [mirrored]
      exact activeEdges_ids_nodup _
    rw [Engine.Mirrored,graph,replays _ distinct,edits.store,mirrored]
  · exact equal

theorem follows_resolve_conflict {ctx : MemoryCtx} {arbiter : ConflictArbiter} {old_id : FactId} {new_fact : NewFact}
    {now : DateTime} {s t : Engine} {r : ConflictResolution}
    (committed : Commits (resolve_conflict ctx arbiter old_id new_fact now) s r t) : Follows s t := by
  obtain ⟨_,_,checked,rest₁⟩ := commits_bind.mp (commits_gated committed)
  obtain ⟨_,rfl⟩ := commits_lift.mp checked
  obtain ⟨old_fact,m,read,rest₂⟩ := commits_bind.mp rest₁
  obtain ⟨db,got,rfl⟩ := commits_port.mp read
  obtain ⟨_,_,rfl⟩ := FactStore.commits_get.mp got
  obtain ⟨decision,_,decided,rest₃⟩ := commits_bind.mp rest₂
  obtain ⟨_,rfl⟩ := commits_lift.mp decided
  obtain ⟨ids,m',written,rest₄⟩ := commits_bind.mp rest₃
  obtain ⟨db',resolved,rfl⟩ := commits_port.mp written
  obtain ⟨_,m'',mirrored,last⟩ := commits_bind.mp rest₄
  obtain rfl := commits_mirror.mp mirrored
  obtain ⟨rfl,rfl⟩ := commits_pure.mp last
  exact .inl ⟨_,_,Resolve.edits resolved,Resolve.replays _ _ _,rfl⟩

theorem follows_prune {ctx : MemoryCtx} {compute_importance : FactScoringRow → Nat → DateTime → ForgetPolicy → F64}
    {policy : ForgetPolicy} {now : DateTime} {s t : Engine} {r : PruneStats × List FactId}
    (committed : Commits (prune ctx compute_importance policy now) s r t) : Follows s t := by
  obtain ⟨_,_,valid,rest₁⟩ := commits_bind.mp (commits_gated committed)
  obtain ⟨_,rfl⟩ := commits_lift.mp valid
  obtain ⟨active,m,read,rest₂⟩ := commits_bind.mp rest₁
  obtain ⟨db,listed,rfl⟩ := commits_port.mp read
  obtain ⟨_,_,seen,rest₃⟩ := commits_bind.mp rest₂
  obtain ⟨rfl,rfl⟩ := commits_get.mp seen
  obtain ⟨stats,m',written,rest₄⟩ := commits_bind.mp rest₃
  obtain ⟨db',pruned,rfl⟩ := commits_port.mp written
  obtain ⟨_,m'',mirrored,last⟩ := commits_bind.mp rest₄
  obtain rfl := commits_mirror.mp mirrored
  obtain ⟨rfl,rfl⟩ := commits_pure.mp last
  have reading := FactStore.keepsEdges_list_active_scoring _ _ _ listed
  exact .inl ⟨_,_,Edits.after reading (Forget.edits pruned),Forget.replays _,rfl⟩

theorem follows_link_session_facts {ctx : MemoryCtx} {session_id : String} {scope : Option String} {now : DateTime}
    {s t : Engine} {n : Nat} (committed : Commits (link_session_facts ctx session_id scope now) s n t) : Follows s t := by
  obtain ⟨_,_,writable,rest₁⟩ := commits_bind.mp committed
  obtain ⟨_,rfl⟩ := commits_lift.mp writable
  obtain ⟨_,_,seen,rest₂⟩ := commits_bind.mp rest₁
  obtain ⟨rfl,rfl⟩ := commits_get.mp seen
  obtain ⟨scope_ids,_,resolved,rest₃⟩ := commits_bind.mp rest₂
  obtain ⟨_,rfl⟩ := commits_lift.mp resolved
  obtain ⟨fact_ids,m,read,rest₄⟩ := commits_bind.mp rest₃
  obtain ⟨db,listed,rfl⟩ := commits_port.mp read
  obtain ⟨_,rfl⟩ := commits_query.mp listed
  split at rest₄
  · obtain ⟨rfl,rfl⟩ := commits_pure.mp rest₄
    exact Follows.of_unchanged (SameEdges.refl _) rfl
  · obtain ⟨new_edges,m',written,rest₅⟩ := commits_bind.mp rest₄
    obtain ⟨db',linked,rfl⟩ := commits_port.mp written
    obtain ⟨_,m'',mirrored,last⟩ := commits_bind.mp rest₅
    obtain rfl := commits_mirror.mp mirrored
    obtain ⟨rfl,rfl⟩ := commits_pure.mp last
    exact .inl ⟨_,_,SessionEdges.edits linked,SessionEdges.replays _,rfl⟩

theorem follows_expire_edge {ctx : MemoryCtx} {edge_id : Int} {now : DateTime} {s t : Engine} {u : Unit}
    (committed : Commits (expire_edge ctx edge_id now) s u t) : Follows s t := by
  obtain ⟨_,_,writable,rest⟩ := commits_bind.mp committed
  obtain ⟨_,rfl⟩ := commits_lift.mp writable
  obtain ⟨_,m,written,mirrored⟩ := commits_bind.mp rest
  obtain ⟨db,expired,rfl⟩ := commits_port.mp written
  obtain rfl := commits_mirror.mp mirrored
  exact .inl ⟨_,_,EdgeStore.edits_expire expired,SessionEdges.replays_expire _,rfl⟩

theorem mirrored_reload {s t : Engine} {u : Unit} (committed : Commits reload_graph s u t) : t.Mirrored := by
  obtain ⟨edges,m,read,mirrored⟩ := commits_bind.mp committed
  obtain ⟨db,listed,rfl⟩ := commits_port.mp read
  obtain ⟨rfl,_,rfl⟩ := EdgeStore.commits_list_active.mp listed
  obtain rfl := commits_mirror.mp mirrored
  exact MemoryGraph.view_from_active_edges _

theorem follows_consolidate {ctx : MemoryCtx} {consolidator : Consolidator} {config : ConsolidationConfig} {now : DateTime}
    {s t : Engine} {r : ConsolidationStats} (committed : Commits (consolidate ctx consolidator config now) s r t) :
    Follows s t := by
  obtain ⟨snapshot,m,read,rest₁⟩ := commits_bind.mp (commits_gated committed)
  obtain ⟨db,loaded,rfl⟩ := commits_port.mp read
  obtain ⟨plan,_,computed,rest₂⟩ := commits_bind.mp rest₁
  obtain ⟨_,rfl⟩ := commits_lift.mp computed
  obtain ⟨stats,m',written,rest₃⟩ := commits_bind.mp rest₂
  obtain ⟨db',applied,rfl⟩ := commits_port.mp written
  obtain ⟨_,m'',reloaded,last⟩ := commits_bind.mp rest₃
  obtain ⟨rfl,rfl⟩ := commits_pure.mp last
  rcases commits_guarded.mp reloaded with ⟨_,reload⟩ | ⟨nothing,rfl⟩
  · exact .inr (mirrored_reload reload)
  · -- nothing expired, so the commit left the active edges alone
    have edits := Consolidate.edits applied
    rw [not_not.mp nothing] at edits
    have reading := Consolidate.keepsEdges_load_snapshot _ _ _ _ _ _ loaded
    exact .inl ⟨_,id,Edits.after reading edits,fun g _ => (dropping_nil g.view).symm,rfl⟩

theorem follows_archive {ctx : MemoryCtx} {write_pak : ArchivePak → Except MemoryError (String × Int × String)}
    {policy : ArchivePolicy} {now : DateTime} {s t : Engine} {r : Option ArchiveStats}
    (committed : Commits (archive ctx write_pak policy now) s r t) : Follows s t := by
  obtain ⟨⟨facts,edges⟩,m,read,rest₁⟩ := commits_bind.mp (commits_gated committed)
  obtain ⟨db,selected,rfl⟩ := commits_port.mp read
  have reading := Archive.keepsEdges_select_archive_candidates _ _ _ _ _ selected
  dsimp only at rest₁
  split at rest₁
  · obtain ⟨rfl,rfl⟩ := commits_pure.mp rest₁
    exact Follows.of_unchanged reading rfl
  · obtain ⟨pak,_,packed,rest₂⟩ := commits_bind.mp rest₁
    obtain ⟨_,rfl⟩ := commits_lift.mp packed
    obtain ⟨_,m',written,rest₃⟩ := commits_bind.mp rest₂
    obtain ⟨db',archived,rfl⟩ := commits_port.mp written
    obtain ⟨_,m'',mirrored,last⟩ := commits_bind.mp rest₃
    obtain rfl := commits_mirror.mp mirrored
    obtain ⟨rfl,rfl⟩ := commits_pure.mp last
    exact .inl ⟨_,_,Edits.after reading (Archive.edits archived),Archive.replays _,rfl⟩

/-- Every call keeps the graph in step with the store. -/
theorem follows_run {ctx : MemoryCtx} {call : GraphCall} {s t : Engine} {u : Unit} (committed : Commits (call.run ctx) s u t) :
    Follows s t := by
  cases call with
  | expire_edge edge_id now => exact follows_expire_edge committed
  | resolve_conflict arbiter old_id new_fact now =>
    obtain ⟨_,m,called,last⟩ := commits_bind.mp committed
    obtain ⟨_,rfl⟩ := commits_pure.mp last
    exact follows_resolve_conflict called
  | prune compute_importance policy now =>
    obtain ⟨_,m,called,last⟩ := commits_bind.mp committed
    obtain ⟨_,rfl⟩ := commits_pure.mp last
    exact follows_prune called
  | link_session_facts session_id scope now =>
    obtain ⟨_,m,called,last⟩ := commits_bind.mp committed
    obtain ⟨_,rfl⟩ := commits_pure.mp last
    exact follows_link_session_facts called
  | consolidate consolidator config now =>
    obtain ⟨_,m,called,last⟩ := commits_bind.mp committed
    obtain ⟨_,rfl⟩ := commits_pure.mp last
    exact follows_consolidate called
  | archive write_pak policy now =>
    obtain ⟨_,m,called,last⟩ := commits_bind.mp committed
    obtain ⟨_,rfl⟩ := commits_pure.mp last
    exact follows_archive called

/-- The engines a sequence of successful calls goes through, the first one
    included. -/
inductive GraphRun (ctx : MemoryCtx) : Engine → List GraphCall → Engine → Prop where
  | start (s : Engine) : GraphRun ctx s [] s
  | call {s m t : Engine} {calls : List GraphCall} {last : GraphCall} (before : GraphRun ctx s calls m)
      (committed : Commits (last.run ctx) m () t) : GraphRun ctx s (calls ++ [last]) t

/-- Started from a graph that equals the active edges, the two are equal after
    every call of every sequence. -/
theorem graph_run_mirrors {ctx : MemoryCtx} {s t : Engine} {calls : List GraphCall} (run : GraphRun ctx s calls t)
    (mirrored : s.graph.edgeTriples = s.storage.activeTriples) : t.graph.edgeTriples = t.storage.activeTriples := by
  induction run with
  | start => exact mirrored
  | call before committed ih => exact (follows_run committed).triples ih

/-- Replace the first fact by a new one, which links the two. -/
def Sample.replacement : GraphCall := .resolve_conflict (fun _ _ => .ok .Update) 1 (Sample.newFact "d") Sample.moment

/-- A replacement, then the expiry of the edge it created. -/
theorem graph_run_mirrors_sample : ∃ t, GraphRun Sample.ctx Sample.engine [Sample.replacement,.expire_edge 2 Sample.moment] t ∧
    t.graph.edgeTriples = t.storage.activeTriples := by
  have ends : Ends (Sample.replacement.run Sample.ctx) Sample.engine (fun _ m =>
      Ends ((GraphCall.expire_edge 2 Sample.moment).run Sample.ctx) m (fun _ _ => true)) = true := by decide +kernel
  obtain ⟨_,m,first,more⟩ := commits_of_ends ends
  obtain ⟨_,t,second,_⟩ := commits_of_ends more
  have before : GraphRun Sample.ctx Sample.engine ([] ++ [Sample.replacement]) m := .call (.start _) first
  have run : GraphRun Sample.ctx Sample.engine ([Sample.replacement] ++ [.expire_edge 2 Sample.moment]) t := .call before second
  exact ⟨t,run,graph_run_mirrors run (by decide +kernel)⟩

end MemoryEngine
