import MemoryEngine.GraphMirror
import MemoryEngine.CycleMirror
import MemoryEngine.CacheRace

/-! Two graph-changing operations at once. Each of them commits first and brings
the shared graph up to date afterwards, and the other one may take its steps in
between. What an operation reads before its commit comes as an argument of the
call, so any earlier reading is covered. -/

namespace MemoryEngine
open Time KeyedTable Transaction GraphEdit Mirror CacheRace

/-- An operation that is about to commit. -/
inductive WriteCall where
  | resolve_conflict (decision : CrudDecision) (old_id : FactId) (new_fact : NewFact) (now : DateTime)
  | link_session_facts (fact_ids : List FactId) (now : DateTime)
  | prune (scored : List (FactId × F64)) (to_expire : List FactId) (now : DateTime)
  | expire_edge (edge_id : Int) (now : DateTime)
  | archive (entry : NewArchiveManifest) (fact_ids : List FactId)
  | apply_cycle_report (codec : HistoryCodec) (report : CycleReport) (now : DateTime)
  | consolidate (plan : ConsolidationPlan)

/-- What an operation does under the write lock of the graph, with what its
    commit handed back. -/
inductive Patch where
  | resolution (decision : CrudDecision) (old_id : FactId) (ids : Option FactId × Option Int)
  | links (new_edges : List (Int × FactId × FactId))
  | pruned (expired : List FactId)
  | edge (edge_id : Int)
  | archived (fact_ids : List FactId)
  | superseded (supersede_edges : List (FactId × FactId × Int))

namespace Patch

def run : Patch → MemoryGraph → MemoryGraph
  | resolution decision old_id ids,g => Resolve.mirrorResolution decision old_id ids g
  | links new_edges,g => SessionEdges.mirrorEdges new_edges g
  | pruned expired,g => expired.foldl MemoryGraph.remove_edges_by_fact g
  | edge edge_id,g => g.remove_edge_by_id edge_id
  | archived fact_ids,g => Archive.pruneNodes fact_ids g
  | superseded supersede_edges,g => supersede_edges.foldl mirrorSupersede g

/-- The edges it drops and adds. -/
def edit : Patch → GraphEdit
  | resolution decision old_id ids => Resolve.edit decision old_id ids
  | links new_edges => adding (SessionEdges.created new_edges)
  | pruned expired => dropping expired
  | edge edge_id => droppingEdge edge_id
  | archived fact_ids => dropping fact_ids
  | superseded supersede_edges => Cycle.superseding supersede_edges

end Patch

/-- How far an operation has come. -/
inductive Task where
  | ready (call : WriteCall)
  | patching (patch : Patch)
  | reading (expired_ids : List FactId)
  | replacing (expired_ids : List FactId) (edges : List Edge)
  | done (edit : GraphEdit) (program : Program)

namespace Task

/-- The edit of the active edges that the operation has committed. -/
def edit : Task → GraphEdit
  | ready _ => skip
  | patching patch => patch.edit
  | reading expired_ids => dropping expired_ids
  | replacing expired_ids _ => dropping expired_ids
  | done edit _ => edit

/-- The steps it has taken. -/
def kinds : Task → List Kind
  | ready _ => []
  | patching _ => [.commit]
  | reading _ => [.commit]
  | replacing _ _ => [.commit,.read]
  | done _ program => program.kinds

def IsReady : Task → Prop
  | ready _ => True
  | _ => False

def IsDone : Task → Prop
  | done _ _ => True
  | _ => False

/-- What the commit puts into the history: nothing, when it leaves the graph
    nothing to do. -/
def begun (i : Side) : Task → List CacheRace.Event
  | done _ _ => []
  | _ => [(i,.commit)]

end Task

/-- The transaction of an operation, and what it leaves to do. A consolidation
    that expired nothing leaves the graph alone. -/
def WriteCall.commit (self : SqliteBackend) : WriteCall → Sql Task
  | resolve_conflict decision old_id new_fact now => do
    let ids ← Resolve.resolve_conflict_atomic self decision old_id new_fact (Resolve.relationFor decision) CONFLICT_EDGE_WEIGHT now
    return .patching (.resolution decision old_id ids)
  | link_session_facts fact_ids now => do
    let new_edges ← SessionEdges.insert_cosession_edges_atomic fact_ids SessionEdges.CO_SESSION_RELATION
      SessionEdges.CO_SESSION_WEIGHT SessionEdges.CO_SESSION_SCOPE_ID now
    return .patching (.links new_edges)
  | prune scored to_expire now => do
    let r ← Forget.prune_atomic self scored to_expire now
    return .patching (.pruned r.2)
  | expire_edge edge_id now => do
    EdgeStore.expire edge_id now
    return .patching (.edge edge_id)
  | archive entry fact_ids => do
    Archive.commit_archive_atomic entry fact_ids
    return .patching (.archived fact_ids)
  | apply_cycle_report codec report now => do
    let pass ← Cycle.apply_cycle_deltas_atomic self codec report now
    return .patching (.superseded pass.supersede_edges)
  | consolidate plan => do
    let r ← Consolidate.apply_plan self plan
    return if r.2 = [] then .done skip .nothing else .reading r.2

/-- The engine that two operations share, and how far each has come. -/
structure Shared where
  engine : Engine
  task : Side → Task

namespace Shared

def moved (sys : Shared) (i : Side) (task : Task) (engine : Engine) : Shared := ⟨engine,Function.update sys.task i task⟩

/-- One step of one operation, with what it puts into the history. Only the calls
    in `allowed` may commit. -/
inductive Step (self : SqliteBackend) (allowed : WriteCall → Tables → Prop) : Shared → List CacheRace.Event → Shared → Prop where
  | commit {sys : Shared} {i : Side} {call : WriteCall} {task : Task} {db : Db} (turn : sys.task i = .ready call)
      (fine : allowed call sys.engine.storage.toTables)
      (committed : Commits (call.commit self) sys.engine.storage task db) :
      Step self allowed sys (task.begun i) (sys.moved i task { sys.engine with storage := db })
  | patch {sys : Shared} {i : Side} {patch : Patch} (turn : sys.task i = .patching patch) :
      Step self allowed sys [(i,.patch)]
        (sys.moved i (.done patch.edit .patches) { sys.engine with graph := patch.run sys.engine.graph })
  | read {sys : Shared} {i : Side} {expired_ids : List FactId} {edges : List Edge} {db : Db}
      (turn : sys.task i = .reading expired_ids) (listed : Commits EdgeStore.list_active sys.engine.storage edges db) :
      Step self allowed sys [(i,.read)] (sys.moved i (.replacing expired_ids edges) { sys.engine with storage := db })
  | replace {sys : Shared} {i : Side} {expired_ids : List FactId} {edges : List Edge}
      (turn : sys.task i = .replacing expired_ids edges) :
      Step self allowed sys [(i,.replace)] (sys.moved i (.done (dropping expired_ids) .reloads)
        { sys.engine with graph := MemoryGraph.from_active_edges edges })

/-- A run of steps in any order, with its history. -/
inductive Run (self : SqliteBackend) (allowed : WriteCall → Tables → Prop) (s : Shared) : List CacheRace.Event → Shared → Prop where
  | start : Run self allowed s [] s
  | step {history events : List CacheRace.Event} {m t : Shared} (before : Run self allowed s history m)
      (step : Step self allowed m events t) : Run self allowed s (history ++ events) t

end Shared

/-- A cycle report may only commit where the graph can follow it. -/
def WriteCall.Quiet : WriteCall → Tables → Prop
  | apply_cycle_report _ report _,t => report.Undisturbed t
  | _,_ => True

/-- What a commit leaves to do, with the graph able to follow. -/
def Task.Begun : Task → Prop
  | .patching patch => Replays patch.edit patch.run
  | .reading _ => True
  | .done edit program => edit = skip ∧ program = .nothing
  | _ => False

theorem WriteCall.commits {self : SqliteBackend} {call : WriteCall} {s t : Db} {task : Task} (quiet : call.Quiet s.toTables)
    (committed : Commits (call.commit self) s task t) : Edits task.edit s t ∧ task.Begun := by
  cases call with
  | resolve_conflict decision old_id new_fact now =>
    obtain ⟨ids,m,resolved,last⟩ := commits_bind.mp committed
    obtain ⟨rfl,rfl⟩ := commits_pure.mp last
    exact ⟨Resolve.edits resolved,Resolve.replays _ _ _⟩
  | link_session_facts fact_ids now =>
    obtain ⟨new_edges,m,linked,last⟩ := commits_bind.mp committed
    obtain ⟨rfl,rfl⟩ := commits_pure.mp last
    exact ⟨SessionEdges.edits linked,SessionEdges.replays _⟩
  | prune scored to_expire now =>
    obtain ⟨r,m,pruned,last⟩ := commits_bind.mp committed
    obtain ⟨rfl,rfl⟩ := commits_pure.mp last
    exact ⟨Forget.edits pruned,Forget.replays _⟩
  | expire_edge edge_id now =>
    obtain ⟨_,m,expired,last⟩ := commits_bind.mp committed
    obtain ⟨rfl,rfl⟩ := commits_pure.mp last
    exact ⟨EdgeStore.edits_expire expired,SessionEdges.replays_expire _⟩
  | archive entry fact_ids =>
    obtain ⟨_,m,archived,last⟩ := commits_bind.mp committed
    obtain ⟨rfl,rfl⟩ := commits_pure.mp last
    exact ⟨Archive.edits archived,Archive.replays _⟩
  | apply_cycle_report codec report now =>
    obtain ⟨pass,m,applied,last⟩ := commits_bind.mp committed
    obtain ⟨rfl,rfl⟩ := commits_pure.mp last
    exact Cycle.edits_undisturbed applied quiet
  | consolidate plan =>
    obtain ⟨r,m,applied,last⟩ := commits_bind.mp committed
    obtain ⟨rfl,rfl⟩ := commits_pure.mp last
    have edits := Consolidate.edits applied
    by_cases nothing : r.2 = []
    · rw [nothing] at edits
      rw [if_pos nothing]
      refine ⟨⟨?_,fun x member => absurd member (Multiset.notMem_zero x),edits.later⟩,rfl,rfl⟩
      rw [edits.store,dropping_nil]
      exact (skip_apply _).symm
    · rw [if_neg nothing]
      exact ⟨edits,trivial⟩

/-! What the store, the graph and a copy reflect along a run. -/

namespace Shared

/-- The edit of each operation that has committed, on edge triples. -/
def edits (sys : Shared) (i : Side) : Edit (Int × FactId × FactId) := (sys.task i).edit.triples

/-- The edges that the two operations have added. -/
def added (sys : Shared) : Multiset (Int × FactId × FactId) := (sys.edits false).add + (sys.edits true).add

theorem added_eq (sys : Shared) (i : Side) : sys.added = (sys.edits i).add + (sys.edits (!i)).add := by
  cases i with
  | false => rfl
  | true => exact add_comm _ _

@[simp] theorem moved_self (sys : Shared) (i : Side) (task : Task) (engine : Engine) :
    (sys.moved i task engine).task i = task := Function.update_self _ _ _

theorem moved_other (sys : Shared) {i j : Side} (task : Task) (engine : Engine) (other : j ≠ i) :
    (sys.moved i task engine).task j = sys.task j := Function.update_of_ne other _ _

/-- Some edits that agree with the operations that have committed. The edit of an
    operation that has not is free, so that it can already be the later one. -/
def Agrees (sys : Shared) (edits : Side → Edit (Int × FactId × FactId)) : Prop :=
  ∀ i, ¬ (sys.task i).IsReady → edits i = sys.edits i

structure Reflects (sys : Shared) (start : Multiset (Int × FactId × FactId)) (words : Words)
    (edits : Side → Edit (Int × FactId × FactId)) : Prop where
  stored : sys.engine.storage.activeTriples = contents edits start words.stored
  cached : sys.engine.graph.edgeTriples = contents edits start words.cached
  copied : ∀ i expired_ids rows, sys.task i = .replacing expired_ids rows →
    (rows.map Edge.snapshot : Multiset GraphEdgeSnapshot).map GraphEdgeSnapshot.triple = contents edits start (words.copied i)

/-- The invariant of a run. -/
structure Tracks (sys : Shared) (start : Multiset (Int × FactId × FactId)) (history : List CacheRace.Event) : Prop where
  kinds : ∀ i, steps i history = (sys.task i).kinds
  replays : ∀ i patch, sys.task i = .patching patch → Replays patch.edit patch.run
  distinct : ((start + sys.added).map Prod.fst).Nodup
  below : ∀ x ∈ start + sys.added, x.1 < sys.engine.storage.edges.nextId
  reflects : ∀ edits, sys.Agrees edits → sys.Reflects start (Words.of history) edits

variable {sys : Shared} {i : Side} {task : Task} {engine : Engine} {history : List CacheRace.Event}
  {start : Multiset (Int × FactId × FactId)}

theorem kinds_moved {kind : Kind} (before : ∀ j, steps j history = (sys.task j).kinds)
    (next : task.kinds = (sys.task i).kinds ++ [kind]) (j : Side) :
    steps j (history ++ [(i,kind)]) = ((sys.moved i task engine).task j).kinds := by
  rw [steps_append]
  by_cases own : i = j
  · subst own
    rw [if_pos rfl,moved_self,before,next]
  · rw [if_neg own,moved_other _ _ _ (Ne.symm own),before]

theorem added_moved (same : task.edit = (sys.task i).edit) : (sys.moved i task engine).added = sys.added := by
  have other : (sys.moved i task engine).edits (!i) = sys.edits (!i) := by
    rw [edits,moved_other _ _ _ (Bool.not_ne_self i)]
    rfl
  rw [added_eq _ i,added_eq _ i,other,edits,moved_self,same]
  rfl

theorem agrees_moved {chosen : Side → Edit (Int × FactId × FactId)}
    (same : ¬ (sys.task i).IsReady → ¬ task.IsReady ∧ task.edit = (sys.task i).edit)
    (agrees : (sys.moved i task engine).Agrees chosen) : sys.Agrees chosen := by
  intro j started
  by_cases own : j = i
  · subst own
    have both := same started
    have chosen_self := agrees j (by rw [moved_self]; exact both.1)
    rw [chosen_self,edits,moved_self,both.2]
    rfl
  · have chosen_other := agrees j (by rw [moved_other _ _ _ own]; exact started)
    rw [chosen_other,edits,moved_other _ _ _ own]
    rfl

theorem agrees_edits (sys : Shared) : sys.Agrees sys.edits := fun _ _ => rfl

/-- The ids of a commit are new, so all ids stay distinct and below the next one. -/
theorem ids_commit (engine : Engine) {db : Db} (turn : (sys.task i).IsReady) (edits : Edits task.edit sys.engine.storage db)
    (distinct : ((start + sys.added).map Prod.fst).Nodup) (below : ∀ x ∈ start + sys.added, x.1 < sys.engine.storage.edges.nextId) :
    ((start + (sys.moved i task engine).added).map Prod.fst).Nodup ∧
      ∀ x ∈ start + (sys.moved i task engine).added, x.1 < db.edges.nextId := by
  have grown : start + (sys.moved i task engine).added = start + sys.added + task.edit.triples.add := by
    have none : (sys.edits i).add = 0 := by
      cases held : sys.task i with
      | ready call => rw [Shared.edits,held]; rfl
      | _ => rw [held] at turn; cases turn
    have other : (sys.moved i task engine).edits (!i) = sys.edits (!i) := by
      rw [Shared.edits,moved_other _ _ _ (Bool.not_ne_self i)]
      rfl
    rw [added_eq _ i,added_eq sys i,other,none,zero_add,Shared.edits,moved_self,add_assoc,add_comm task.edit.triples.add]
  obtain ⟨nodup,bounded⟩ := edits.added_ids
  have ids : task.edit.triples.add.map Prod.fst = task.edit.add.map GraphEdgeSnapshot.edge_id := Multiset.map_map _ _ _
  rw [grown,Multiset.map_add,Multiset.nodup_add,ids]
  refine ⟨⟨distinct,nodup,?_⟩,?_⟩
  · rw [Multiset.disjoint_left]
    intro id old new
    obtain ⟨x,held,rfl⟩ := Multiset.mem_map.mp old
    obtain ⟨y,fresh,same⟩ := Multiset.mem_map.mp new
    have above := edits.fresh y fresh
    have under := below x held
    omega
  · intro x member
    rcases Multiset.mem_add.mp member with old | new
    · exact lt_of_lt_of_le (below x old) edits.later
    · obtain ⟨y,fresh,rfl⟩ := Multiset.mem_map.mp new
      exact bounded y fresh

theorem triples_commit {db : Db} (edits : Edits task.edit sys.engine.storage db) :
    db.activeTriples = task.edit.triples.apply sys.engine.storage.activeTriples := by
  rw [Tables.activeTriples,edits.store,map_apply]
  rfl

/-- A commit reaches the store alone. -/
theorem tracks_commit {db : Db} (tracks : sys.Tracks start history) (turn : (sys.task i).IsReady)
    (edits : Edits task.edit sys.engine.storage db) (begun : task.Begun) :
    (sys.moved i task { sys.engine with storage := db }).Tracks start (history ++ task.begun i) := by
  obtain ⟨distinct,below⟩ := ids_commit { sys.engine with storage := db } turn edits tracks.distinct tracks.below
  have nothing : (sys.task i).kinds = [] := by
    cases held : sys.task i with
    | ready call => rfl
    | _ => rw [held] at turn; cases turn
  have started : ¬ task.IsReady := by
    cases task with
    | ready call => cases begun
    | _ => exact id
  have idle : ∀ j expired_ids rows, (sys.moved i task { sys.engine with storage := db }).task j = .replacing expired_ids rows →
      sys.task j = .replacing expired_ids rows := by
    intro j expired_ids rows held
    by_cases own : j = i
    · subst own
      rw [moved_self] at held
      rw [held] at begun
      cases begun
    · rwa [moved_other _ _ _ own] at held
  have reflected : ∀ chosen, (sys.moved i task { sys.engine with storage := db }).Agrees chosen →
      sys.Reflects start (Words.of history) chosen ∧ chosen i = task.edit.triples := by
    intro chosen agrees
    refine ⟨tracks.reflects chosen (agrees_moved (fun wrong => absurd turn wrong) agrees),?_⟩
    rw [agrees i (by rw [moved_self]; exact started),Shared.edits,moved_self]
  have replays : ∀ j patch, (sys.moved i task { sys.engine with storage := db }).task j = .patching patch →
      Replays patch.edit patch.run := by
    intro j patch held
    by_cases own : j = i
    · subst own
      rw [moved_self] at held
      rw [held] at begun
      exact begun
    · rw [moved_other _ _ _ own] at held
      exact tracks.replays j patch held
  have stored := triples_commit edits
  have fork : (task.begun i = [] ∧ task.edit = skip ∧ task.kinds = []) ∨
      (task.begun i = [(i,.commit)] ∧ task.kinds = [.commit]) := by
    cases task with
    | done edit program =>
      obtain ⟨rfl,rfl⟩ := begun
      exact .inl ⟨rfl,rfl,rfl⟩
    | patching patch => exact .inr ⟨rfl,rfl⟩
    | reading expired_ids => exact .inr ⟨rfl,rfl⟩
    | _ => cases begun
  rcases fork with ⟨silent,unchanged,kinds⟩ | ⟨event,kinds⟩
  · rw [silent,List.append_nil]
    refine ⟨?_,replays,distinct,below,?_⟩
    · intro j
      by_cases own : j = i
      · subst own
        rw [moved_self,tracks.kinds,nothing,kinds]
      · rw [moved_other _ _ _ own,tracks.kinds]
    · intro chosen agrees
      have reflects := (reflected chosen agrees).1
      refine ⟨?_,reflects.cached,fun j expired_ids rows held => reflects.copied j expired_ids rows (idle j _ _ held)⟩
      rw [unchanged] at stored
      rw [← reflects.stored]
      exact stored.trans (Edit.skip_apply _)
  · rw [event]
    refine ⟨kinds_moved tracks.kinds (by rw [kinds,nothing]; rfl),replays,distinct,below,?_⟩
    intro chosen agrees
    obtain ⟨reflects,own⟩ := reflected chosen agrees
    rw [Words.of_append]
    refine ⟨?_,reflects.cached,fun j expired_ids rows held => reflects.copied j expired_ids rows (idle j _ _ held)⟩
    change db.activeTriples = contents chosen start ((Words.of history).stored ++ [i])
    rw [contents_append,own,← reflects.stored]
    exact stored

end Shared

/-- The steps of a task start one of the programs. -/
theorem Task.kinds_take (task : Task) : ∃ (p : Program) (n : Nat), task.kinds = p.kinds.take n := by
  cases task with
  | ready call => exact ⟨.nothing,0,rfl⟩
  | patching patch => exact ⟨.patches,1,rfl⟩
  | reading expired_ids => exact ⟨.reloads,1,rfl⟩
  | replacing expired_ids edges => exact ⟨.reloads,2,rfl⟩
  | done edit program => exact ⟨program,program.kinds.length,(List.take_length).symm⟩

namespace Shared
variable {sys : Shared} {i : Side} {history : List CacheRace.Event} {start : Multiset (Int × FactId × FactId)}

/-- While a patch is due, the graph tells its edges apart by their ids. -/
theorem ids_patching {patch : Patch} (tracks : sys.Tracks start history) (turn : sys.task i = .patching patch) :
    (sys.engine.graph.view.map GraphEdgeSnapshot.edge_id).Nodup := by
  obtain ⟨p,n,other⟩ := (sys.task (!i)).kinds_take
  have pending : steps i history = [.commit] := by rw [tracks.kinds,turn]; rfl
  have once := cached_nodup pending ((tracks.kinds (!i)).trans other)
  have within := contents_le sys.edits start once
  rw [← (tracks.reflects _ sys.agrees_edits).cached] at within
  have ids : sys.engine.graph.view.map GraphEdgeSnapshot.edge_id = sys.engine.graph.edgeTriples.map Prod.fst := by
    rw [MemoryGraph.edgeTriples,Multiset.map_map]
    rfl
  rw [ids]
  exact Multiset.nodup_of_le (Multiset.map_le_map within) tracks.distinct

/-- A step after the commit keeps the store and the edits, so only the words have
    to be accounted for. -/
theorem tracks_after {task : Task} {engine : Engine} {kind : Kind} (tracks : sys.Tracks start history)
    (started : ¬ task.IsReady) (same : task.edit = (sys.task i).edit) (next : task.kinds = (sys.task i).kinds ++ [kind])
    (patched : ∀ patch, task ≠ .patching patch) (store : engine.storage = sys.engine.storage)
    (reflects : ∀ chosen, sys.Agrees chosen → (sys.moved i task engine).Reflects start ((Words.of history).step (i,kind)) chosen) :
    (sys.moved i task engine).Tracks start (history ++ [(i,kind)]) where
  kinds := kinds_moved tracks.kinds next
  replays := by
    intro j patch held
    by_cases own : j = i
    · subst own
      rw [moved_self] at held
      exact absurd held (patched patch)
    · rw [moved_other _ _ _ own] at held
      exact tracks.replays j patch held
  distinct := by
    rw [added_moved same]
    exact tracks.distinct
  below := by
    rw [added_moved same]
    change ∀ x ∈ start + sys.added, x.1 < engine.storage.edges.nextId
    rw [store]
    exact tracks.below
  reflects := by
    intro chosen agrees
    rw [Words.of_append]
    exact reflects chosen (agrees_moved (fun _ => ⟨started,same⟩) agrees)

/-- The copies of the other operation, when this one is not about to replace. -/
theorem copied_other {task : Task} {engine : Engine} (idle : ∀ expired_ids edges, task ≠ .replacing expired_ids edges)
    {j : Side} {expired_ids : List FactId} {rows : List Edge}
    (held : (sys.moved i task engine).task j = .replacing expired_ids rows) : sys.task j = .replacing expired_ids rows := by
  by_cases own : j = i
  · subst own
    rw [moved_self] at held
    exact absurd held (idle _ _)
  · rwa [moved_other _ _ _ own] at held

theorem tracks_patch {patch : Patch} (tracks : sys.Tracks start history) (turn : sys.task i = .patching patch) :
    (sys.moved i (.done patch.edit .patches) { sys.engine with graph := patch.run sys.engine.graph }).Tracks start
      (history ++ [(i,.patch)]) := by
  refine tracks_after tracks (fun wrong => wrong) (by rw [turn]; rfl) (by rw [turn]; rfl) (fun _ same => by cases same) rfl ?_
  intro chosen agrees
  have reflects := tracks.reflects chosen agrees
  have own : chosen i = patch.edit.triples := by
    rw [agrees i (by rw [turn]; exact id),Shared.edits,turn]
    rfl
  refine ⟨reflects.stored,?_,fun j expired_ids rows held => reflects.copied j expired_ids rows
    (copied_other (fun _ _ same => by cases same) held)⟩
  change (patch.run sys.engine.graph).edgeTriples = contents chosen start ((Words.of history).cached ++ [i])
  rw [contents_append,← reflects.cached,own,MemoryGraph.edgeTriples,tracks.replays i patch turn _ (ids_patching tracks turn),
    map_apply]
  rfl

theorem tracks_read {expired_ids : List FactId} {edges : List Edge} {db : Db} (tracks : sys.Tracks start history)
    (turn : sys.task i = .reading expired_ids) (listed : Commits EdgeStore.list_active sys.engine.storage edges db) :
    (sys.moved i (.replacing expired_ids edges) { sys.engine with storage := db }).Tracks start (history ++ [(i,.read)]) := by
  obtain ⟨rfl,_,rfl⟩ := EdgeStore.commits_list_active.mp listed
  refine tracks_after tracks (fun wrong => wrong) (by rw [turn]; rfl) (by rw [turn]; rfl) (fun _ same => by cases same) rfl ?_
  intro chosen agrees
  have reflects := tracks.reflects chosen agrees
  refine ⟨reflects.stored,reflects.cached,?_⟩
  intro j ids rows held
  by_cases own : j = i
  · subst own
    rw [moved_self] at held
    cases held
    change sys.engine.storage.activeTriples = contents chosen start (Function.update (Words.of history).copied j _ j)
    rw [Function.update_self]
    exact reflects.stored
  · rw [moved_other _ _ _ own] at held
    change _ = contents chosen start (Function.update (Words.of history).copied i _ j)
    rw [Function.update_of_ne own]
    exact reflects.copied j ids rows held

theorem tracks_replace {expired_ids : List FactId} {edges : List Edge} (tracks : sys.Tracks start history)
    (turn : sys.task i = .replacing expired_ids edges) :
    (sys.moved i (.done (dropping expired_ids) .reloads) { sys.engine with graph := MemoryGraph.from_active_edges edges }).Tracks
      start (history ++ [(i,.replace)]) := by
  refine tracks_after tracks (fun wrong => wrong) (by rw [turn]; rfl) (by rw [turn]; rfl) (fun _ same => by cases same) rfl ?_
  intro chosen agrees
  have reflects := tracks.reflects chosen agrees
  refine ⟨reflects.stored,?_,fun j ids rows held => reflects.copied j ids rows (copied_other (fun _ _ same => by cases same) held)⟩
  change (MemoryGraph.from_active_edges edges).edgeTriples = contents chosen start ((Words.of history).copied i)
  rw [MemoryGraph.edgeTriples,MemoryGraph.view_from_active_edges]
  exact reflects.copied i expired_ids edges turn

/-- Every step keeps the invariant. -/
theorem tracks_step {self : SqliteBackend} {t : Shared} {events : List CacheRace.Event} (tracks : sys.Tracks start history)
    (step : Step self WriteCall.Quiet sys events t) : t.Tracks start (history ++ events) := by
  cases step with
  | commit turn fine committed =>
    obtain ⟨edits,begun⟩ := WriteCall.commits fine committed
    exact tracks_commit tracks (by rw [turn]; trivial) edits begun
  | patch turn => exact tracks_patch tracks turn
  | read turn listed => exact tracks_read tracks turn listed
  | replace turn => exact tracks_replace tracks turn

theorem tracks_start (waiting : ∀ i, (sys.task i).IsReady) (mirrored : sys.engine.graph.edgeTriples = sys.engine.storage.activeTriples) :
    sys.Tracks sys.engine.storage.activeTriples [] := by
  have ready : ∀ i, ∃ call, sys.task i = .ready call := by
    intro i
    have turn := waiting i
    cases held : sys.task i with
    | ready call => exact ⟨call,rfl⟩
    | _ => rw [held] at turn; cases turn
  have none : sys.added = 0 := by
    have each : ∀ i, (sys.edits i).add = 0 := by
      intro i
      obtain ⟨call,held⟩ := ready i
      rw [Shared.edits,held]
      rfl
    rw [Shared.added,each,each,zero_add]
  have ids : sys.engine.storage.activeTriples.map Prod.fst = sys.engine.storage.activeEdges.map GraphEdgeSnapshot.edge_id := by
    rw [Tables.activeTriples,Multiset.map_map]
    rfl
  refine ⟨?_,?_,?_,?_,?_⟩
  · intro i
    obtain ⟨call,held⟩ := ready i
    rw [held]
    rfl
  · intro i patch held
    obtain ⟨call,turn⟩ := ready i
    rw [turn] at held
    cases held
  · rw [none,add_zero,ids]
    exact activeEdges_ids_nodup _
  · rw [none,add_zero]
    intro x member
    obtain ⟨edge,active,rfl⟩ := Multiset.mem_map.mp member
    exact edge_id_lt_next active
  · intro chosen _
    refine ⟨rfl,mirrored,?_⟩
    intro i expired_ids rows held
    obtain ⟨call,turn⟩ := ready i
    rw [turn] at held
    cases held

theorem tracks_run {self : SqliteBackend} {s t : Shared} (run : Run self WriteCall.Quiet s history t)
    (waiting : ∀ i, (s.task i).IsReady) (mirrored : s.engine.graph.edgeTriples = s.engine.storage.activeTriples) :
    t.Tracks s.engine.storage.activeTriples history := by
  induction run with
  | start => exact tracks_start waiting mirrored
  | step before step ih => exact tracks_step ih step

end Shared

open Shared

/-- When both operations are done, the graph equals the store exactly if the
    deviations of its history from the commit order were harmless. -/
theorem interleaving_mirrors_iff {self : SqliteBackend} {s t : Shared} {history : List CacheRace.Event}
    (run : Run self WriteCall.Quiet s history t) (waiting : ∀ i, (s.task i).IsReady)
    (mirrored : s.engine.graph.edgeTriples = s.engine.storage.activeTriples) (finished : ∀ i, (t.task i).IsDone) :
    t.engine.graph.edgeTriples = t.engine.storage.activeTriples ↔
      Harmless t.edits s.engine.storage.activeTriples history := by
  have tracks := tracks_run run waiting mirrored
  have reflects := tracks.reflects _ t.agrees_edits
  have programs : ∀ i, ∃ p : Program, steps i history = p.kinds := by
    intro i
    have ended := finished i
    cases held : t.task i with
    | done edit program => exact ⟨program,by rw [tracks.kinds,held]; rfl⟩
    | _ => rw [held] at ended; cases ended
  obtain ⟨p,first⟩ := programs false
  obtain ⟨q,second⟩ := programs true
  have apart : ∀ i, ∀ x ∈ (t.edits i).add, x ∉ (t.edits (!i)).add := by
    intro i x here there
    have distinct := tracks.distinct
    rw [added_eq t i,Multiset.map_add,Multiset.map_add,Multiset.nodup_add,Multiset.nodup_add] at distinct
    exact Multiset.disjoint_left.mp distinct.2.1.2.2 (Multiset.mem_map_of_mem _ here) (Multiset.mem_map_of_mem _ there)
  rw [reflects.cached,reflects.stored]
  exact cached_eq_stored_iff first second apart

namespace Shared

/-- The sweep of the sample engine: some facts score below the threshold. -/
def sweep (expired : List FactId) : WriteCall :=
  .prune ([1,2,3].map fun id => (id,if id ∈ expired then F64.ofRat 0 else F64.ofRat (1 / 2))) expired Sample.moment

/-- Two operations on the sample engine. -/
def sample (first second : WriteCall) : Shared := ⟨Sample.engine,fun i => if i then .ready second else .ready first⟩

/-- Both commit, then the second one patches the graph before the first. -/
def crossed (sys : Shared) (p q : Patch) (m n : Db) : Shared :=
  (((sys.moved false (.patching p) { sys.engine with storage := m }).moved true (.patching q) { sys.engine with storage := n }).moved
    true (.done q.edit .patches) ⟨n,q.run sys.engine.graph,sys.engine.scope_tree⟩).moved
      false (.done p.edit .patches) ⟨n,p.run (q.run sys.engine.graph),sys.engine.scope_tree⟩

def crossing : List CacheRace.Event := [(false,.commit),(true,.commit),(true,.patch),(false,.patch)]

theorem run_crossed {self : SqliteBackend} (allowed : WriteCall → Tables → Prop) {first second : WriteCall} {p q : Patch} {m n : Db}
    (fine : allowed first Sample.engine.storage.toTables) (fine' : allowed second m.toTables)
    (committed : Commits (first.commit self) Sample.engine.storage (.patching p) m)
    (committed' : Commits (second.commit self) m (.patching q) n) :
    Run self allowed (sample first second) crossing ((sample first second).crossed p q m n) := by
  have committed_first := Run.step .start (@Step.commit self allowed (sample first second) false _ _ _ rfl fine committed)
  have committed_both := Run.step committed_first (@Step.commit self allowed _ true _ _ _ rfl fine' committed')
  have patched_second := Run.step committed_both (@Step.patch self allowed _ true q rfl)
  exact Run.step patched_second (@Step.patch self allowed _ false p rfl)

theorem ready_sample (first second : WriteCall) (i : Side) : ((sample first second).task i).IsReady := by
  cases i <;> trivial

theorem done_crossed (sys : Shared) (p q : Patch) (m n : Db) (i : Side) : ((sys.crossed p q m n).task i).IsDone := by
  cases i <;> trivial

/-- Both calls commit one after the other, and the two patches in the other order
    pass a test. -/
def crosses (first second : WriteCall) (test : MemoryGraph → Db → Bool) : Bool :=
  Ends (first.commit Sample.backend) Sample.engine.storage fun task m =>
    match task with
    | .patching p => Ends (second.commit Sample.backend) m fun task' n =>
      match task' with
      | .patching q => test (p.run (q.run Sample.engine.graph)) n
      | _ => false
    | _ => false

theorem crosses_spec {first second : WriteCall} {test : MemoryGraph → Db → Bool} (passed : crosses first second test = true) :
    ∃ p q m n, Commits (first.commit Sample.backend) Sample.engine.storage (.patching p) m ∧
      Commits (second.commit Sample.backend) m (.patching q) n ∧ test (p.run (q.run Sample.engine.graph)) n = true := by
  obtain ⟨task,m,committed,more⟩ := commits_of_ends passed
  cases task with
  | patching p =>
    obtain ⟨task',n,committed',last⟩ := commits_of_ends more
    cases task' with
    | patching q => exact ⟨p,q,m,n,committed,committed',last⟩
    | _ => cases last
  | _ => cases more

theorem mirrored_sample : Sample.engine.graph.edgeTriples = Sample.engine.storage.activeTriples := by decide +kernel

end Shared

/-- A supplement to the first fact and the expiry of the second one cross without
    harm. -/
theorem interleaving_mirrors_sample : ∃ t, Run Sample.backend WriteCall.Quiet
    (sample (.resolve_conflict .Add 1 (Sample.newFact "d") Sample.moment) (sweep [2])) crossing t ∧
      (t.engine.graph.edgeTriples = t.engine.storage.activeTriples ↔
        Harmless t.edits Sample.engine.storage.activeTriples crossing) := by
  have passed : crosses (.resolve_conflict .Add 1 (Sample.newFact "d") Sample.moment) (sweep [2])
      (fun _ _ => true) = true := by decide +kernel
  obtain ⟨p,q,m,n,committed,committed',_⟩ := crosses_spec passed
  have run := run_crossed WriteCall.Quiet (by trivial) (by trivial) committed committed'
  exact ⟨_,run,interleaving_mirrors_iff run (ready_sample _ _) mirrored_sample (done_crossed _ _ _ _ _)⟩

/-- A supplement to a fact that expires before the graph has the new edge leaves
    that edge in the graph. -/
theorem crossed_patches_diverge : ¬ ∀ (self : SqliteBackend) (s t : Shared) (history : List CacheRace.Event),
    Run self (fun _ _ => True) s history t → (∀ i, (s.task i).IsReady) →
      s.engine.graph.edgeTriples = s.engine.storage.activeTriples → (∀ i, (t.task i).IsDone) →
        t.engine.graph.edgeTriples = t.engine.storage.activeTriples := by
  intro claim
  have passed : crosses (.resolve_conflict .Add 1 (Sample.newFact "d") Sample.moment) (sweep [1])
      (fun g db => decide (g.edgeTriples ≠ db.activeTriples)) = true := by decide +kernel
  obtain ⟨p,q,m,n,committed,committed',apart⟩ := crosses_spec passed
  have run := run_crossed (fun _ _ => True) trivial trivial committed committed'
  exact of_decide_eq_true apart (claim _ _ _ _ run (ready_sample _ _) mirrored_sample (done_crossed _ _ _ _ _))

end MemoryEngine
