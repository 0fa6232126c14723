import MemoryEngine.SnapshotFlush

/-! A flush among other operations. It copies the graph first and reads the fingerprint later,
in a transaction of its own, so a commit between the two is in the fingerprint and not in
the copied edges. An opening that finds the fingerprint unchanged then takes edges that
the database never had under it, where their number and their ends do not give them away. -/

namespace MemoryEngine
open Time KeyedTable Transaction Snapshot Framing

namespace FlushRace

/-- How far a flush has come. -/
inductive Flush where
  | graph (graph : List GraphEdgeSnapshot)
  | projections (graph : List GraphEdgeSnapshot) (scope_tree : List ScopeNode)
  | fingerprinted (header : SnapshotHeader) (graph : List GraphEdgeSnapshot) (scope_tree : List ScopeNode)
  | assembled (header : SnapshotHeader) (payload : SnapshotPayload)

/-- The fingerprint it has read, with the edges it copied before. -/
def Flush.stamp : Flush → Option (DbFingerprint × List GraphEdgeSnapshot)
  | .fingerprinted header edges _ => some (header.fingerprint,edges)
  | .assembled header payload => some (header.fingerprint,payload.graph)
  | _ => none

/-- The engine, the operations that have committed and not yet brought the graph up to date,
    the flushes under way, and the file. -/
structure State where
  engine : Engine
  tasks : List Task
  flushes : List Flush
  sidecar : Sidecar

namespace State

def stored (s : State) (db : Db) : State := { s with engine := { s.engine with storage := db } }

def graphed (s : State) (graph : MemoryGraph) (tasks : List Task) : State := { s with engine := { s.engine with graph := graph }, tasks := tasks }

end State

inductive Action where
  | commit
  | mirror
  | copy
  | fingerprint (graph : List GraphEdgeSnapshot)
  | assemble
  | write
  | abandon
  | reopen

section system
variable (host : SnapshotHost) (ctx : MemoryCtx)

/-- What an opening makes of the database and the file. -/
def Opens (sidecar : Sidecar) (s t : Engine) : Prop :=
  t.storage = s.storage ∧ (∃ embed_dim hnsw,
    try_load_snapshot host sidecar embed_dim s.storage.toTables = some (some (t.graph,t.scope_tree,hnsw))) ∨ Commits full_rebuild s.storage t s.storage

/-- One step of a flush or of another operation. A `store` is a write of this process that
    owes the graph nothing, or any write of another process. -/
inductive Step : State → Action → State → Prop where
  | commit {s : State} {call : WriteCall} {task : Task} {db : Db} (committed : Commits (call.commit ctx.backend) s.engine.storage task db) :
      Step s .commit { s.stored db with tasks := task :: s.tasks }
  | store {s : State} {db : Db} (self : SqliteBackend) (call : PortWrite) (committed : Commits (call.run self) s.engine.storage () db) :
      Step s .commit (s.stored db)
  | patch {s : State} {front rest : List Task} {patch : Patch} (turn : s.tasks = front ++ .patching patch :: rest) :
      Step s .mirror (s.graphed (patch.run s.engine.graph) (front ++ rest))
  | read {s : State} {front rest : List Task} {expired_ids : List FactId} {edges : List Edge} (turn : s.tasks = front ++ .reading expired_ids :: rest)
      (listed : Commits EdgeStore.list_active s.engine.storage edges s.engine.storage) :
      Step s .mirror { s with tasks := front ++ .replacing expired_ids edges :: rest }
  | replace {s : State} {front rest : List Task} {expired_ids : List FactId} {edges : List Edge}
      (turn : s.tasks = front ++ .replacing expired_ids edges :: rest) :
      Step s .mirror (s.graphed (MemoryGraph.from_active_edges edges) (front ++ rest))
  | scopes {s : State} (tree : ScopeTree) : Step s .mirror { s with engine := { s.engine with scope_tree := tree } }
  | copy_graph {s : State} : Step s .copy { s with flushes := .graph s.engine.graph.to_snapshot :: s.flushes }
  | copy_scopes {s : State} {front rest : List Flush} {graph : List GraphEdgeSnapshot} (turn : s.flushes = front ++ .graph graph :: rest) :
      Step s .copy { s with flushes := front ++ .projections graph s.engine.scope_tree.to_snapshot :: rest }
  | fingerprint {s : State} {front rest : List Flush} {graph : List GraphEdgeSnapshot} {scope_tree : List ScopeNode} {fingerprint : DbFingerprint}
      (turn : s.flushes = front ++ .projections graph scope_tree :: rest)
      (read : Commits read_fingerprint s.engine.storage fingerprint s.engine.storage) :
      Step s (.fingerprint graph) { s with flushes := front ++ .fingerprinted (snapshot_header ctx fingerprint) graph scope_tree :: rest }
  | assemble {s : State} {front rest : List Flush} {header : SnapshotHeader} {graph : List GraphEdgeSnapshot} {scope_tree : List ScopeNode}
      {hnsw : Option (List HnswEntry)} (turn : s.flushes = front ++ .fingerprinted header graph scope_tree :: rest)
      (listed : Commits (hnsw_snap host ctx) s.engine.storage hnsw s.engine.storage) :
      Step s .assemble { s with flushes := front ++ .assembled header ⟨graph,scope_tree,hnsw⟩ :: rest }
  | write {s : State} {front rest : List Flush} {header : SnapshotHeader} {payload : SnapshotPayload} {data : List UInt8}
      (turn : s.flushes = front ++ .assembled header payload :: rest) (written : write_to_file host.lib header payload = .ok data) :
      Step s .write { s with flushes := front ++ rest, sidecar := .file data }
  | abandon {s : State} {front rest : List Flush} {flush : Flush} (turn : s.flushes = front ++ flush :: rest) :
      Step s .abandon { s with flushes := front ++ rest }
  | reopen {s : State} {engine : Engine} (opened : Opens host s.sidecar s.engine engine) : Step s .reopen ⟨engine,[],[],s.sidecar⟩

/-- The interleavings whose steps are allowed. -/
inductive Run (allowed : State → Action → Prop) (s : State) : State → Prop where
  | refl : Run allowed s s
  | step {m t : State} {action : Action} (before : Run allowed s m) (step : Step host ctx m action t) (may : allowed m action) : Run allowed s t

/-- When a flush reads the fingerprint, the edges that it copied are the active ones, or the
    checks of an opening would not let them pass. -/
def Timely (s : State) : Action → Prop
  | .fingerprint graph => (graph : Multiset GraphEdgeSnapshot) = s.engine.storage.activeEdges ∨ Betrayed graph s.engine.storage.toTables
  | _ => True

/-- Where the fingerprint is the one of the database and the edges pass the checks, they are
    the active edges. -/
def Honest (fingerprint : DbFingerprint) (graph : List GraphEdgeSnapshot) (t : Tables) : Prop :=
  fingerprint = t.fingerprint → ¬ Betrayed graph t → (graph : Multiset GraphEdgeSnapshot) = t.activeEdges

/-- A fingerprint that was read with edges copied before, in a flush under way or in the file. -/
def Held (s : State) (fingerprint : DbFingerprint) (graph : List GraphEdgeSnapshot) : Prop :=
  (∃ flush ∈ s.flushes, flush.stamp = some (fingerprint,graph)) ∨ ∃ embed_dim header payload,
    load_from_file host.lib s.sidecar embed_dim = some (some (header,payload)) ∧ header.fingerprint = fingerprint ∧ payload.graph = graph

def Faithful (s : State) : Prop := ∀ fingerprint graph, Held host s fingerprint graph → Honest fingerprint graph s.engine.storage.toTables

/-- The edges were the active ones, or were betrayed, when the fingerprint was read. -/
def Sealed (fingerprint : DbFingerprint) (graph : List GraphEdgeSnapshot) (t : Tables) : Prop :=
  ∃ s : Tables, s.Ages t ∧ fingerprint = s.fingerprint ∧ ((graph : Multiset GraphEdgeSnapshot) = s.activeEdges ∨ Betrayed graph s)

end system

/-- A fact that exists under an old fingerprint existed when the fingerprint was read. -/
theorem present_before {s t : Tables} {id : FactId} (ages : s.Ages t) (same : t.fingerprint = s.fingerprint) (positive : 0 < id)
    (present : t.facts.Has id) : s.facts.Has id := by
  obtain ⟨row,held,rfl⟩ := present
  by_cases low : Row.key row ≤ s.facts.seq
  · obtain ⟨before,there,keyed,_⟩ := ages.facts.old row held low
    exact ⟨before,there,keyed⟩
  · -- a new key would have raised the maximum
    have above := Table.le_maxKey held
    have high : (0 : Int) < Row.key row := positive
    have tops : t.facts.maxKey = s.facts.maxKey := congrArg DbFingerprint.max_fact_id same
    cases rows : s.facts.rows with
    | nil =>
      have none_ : s.facts.maxKey = 0 := by
        rw [Table.maxKey,rows]
        rfl
      omega
    | cons first rest =>
      have below : s.facts.maxKey ≤ s.facts.seq := Table.maxKey_le (rows ▸ List.mem_cons_self : first ∈ s.facts.rows)
      omega

/-- What betrays edges when the fingerprint is read betrays them as long as it stays. -/
theorem Betrayed.later {s t : Tables} {graph : List GraphEdgeSnapshot} (betrayed : Betrayed graph s) (ages : s.Ages t)
    (same : t.fingerprint = s.fingerprint) : Betrayed graph t := by
  have count : (t.edges.liveRows Edge.active).length = (s.edges.liveRows Edge.active).length :=
    Int.ofNat.inj (congrArg DbFingerprint.active_edge_count same)
  rcases betrayed with several | many | ⟨e,member,refused⟩
  · exact .inl (by rwa [count])
  · exact .inr (.inl many)
  · refine .inr (.inr ⟨e,member,fun admitted => refused ⟨admitted.edge_id,admitted.positive,?_⟩⟩)
    obtain ⟨source,target⟩ := admitted.present
    rw [mem_existing_fact_ids] at source target ⊢
    rw [mem_existing_fact_ids]
    exact ⟨present_before ages same admitted.positive.1 source,present_before ages same admitted.positive.2 target⟩

theorem Sealed.honest {fingerprint : DbFingerprint} {graph : List GraphEdgeSnapshot} {t : Tables} (held : Sealed fingerprint graph t) :
    Honest fingerprint graph t := by
  obtain ⟨s,ages,rfl,sound⟩ := held
  intro same passes
  rcases sound with equal | betrayed
  · have edges : t.activeEdges = s.activeEdges := congrArg Multiset.ofList (ages.active_edges same.symm)
    rw [edges]
    exact equal
  · exact absurd (Betrayed.later betrayed ages same.symm) passes

theorem Sealed.ages {fingerprint : DbFingerprint} {graph : List GraphEdgeSnapshot} {m t : Tables} (held : Sealed fingerprint graph m)
    (later : m.Ages t) : Sealed fingerprint graph t := by
  obtain ⟨s,ages,same,sound⟩ := held
  exact ⟨s,ages.trans later,same,sound⟩

/-- A commit of an operation is a call of the port that leaves spaces and vectors alone. -/
theorem commit_writes {self : SqliteBackend} {call : WriteCall} {task : Task} {s t : Db} (committed : Commits (call.commit self) s task t) :
    ∃ write : PortWrite, ¬ write.OnSpaces ∧ Commits (write.run self) s () t := by
  cases call with
  | resolve_conflict decision old_id new_fact now =>
    obtain ⟨_,_,resolved,last⟩ := commits_bind.mp committed
    obtain ⟨_,rfl⟩ := commits_pure.mp last
    exact ⟨.resolve_conflict_atomic decision old_id new_fact _ _ now,id,commits_void resolved⟩
  | link_session_facts fact_ids now =>
    obtain ⟨_,_,linked,last⟩ := commits_bind.mp committed
    obtain ⟨_,rfl⟩ := commits_pure.mp last
    exact ⟨.insert_cosession_edges_atomic fact_ids _ _ _ now,id,commits_void linked⟩
  | prune scored to_expire now =>
    obtain ⟨_,_,pruned,last⟩ := commits_bind.mp committed
    obtain ⟨_,rfl⟩ := commits_pure.mp last
    exact ⟨.prune_atomic scored to_expire now,id,commits_void pruned⟩
  | expire_edge edge_id now =>
    obtain ⟨_,_,expired,last⟩ := commits_bind.mp committed
    obtain ⟨_,rfl⟩ := commits_pure.mp last
    exact ⟨.expire_edge edge_id now,id,expired⟩
  | archive entry fact_ids =>
    obtain ⟨_,_,archived,last⟩ := commits_bind.mp committed
    obtain ⟨_,rfl⟩ := commits_pure.mp last
    exact ⟨.commit_archive_atomic entry fact_ids,id,archived⟩
  | apply_cycle_report codec report now =>
    obtain ⟨_,_,applied,last⟩ := commits_bind.mp committed
    obtain ⟨_,rfl⟩ := commits_pure.mp last
    exact ⟨.apply_cycle_deltas_atomic codec report now,id,commits_void applied⟩
  | consolidate plan =>
    obtain ⟨_,_,applied,last⟩ := commits_bind.mp committed
    obtain ⟨_,rfl⟩ := commits_pure.mp last
    exact ⟨.apply_plan plan,id,commits_void applied⟩

variable {host : SnapshotHost} {ctx : MemoryCtx}

theorem Opens.storage {sidecar : Sidecar} {s t : Engine} (opened : Opens host sidecar s t) : t.storage = s.storage := by
  rcases opened with ⟨same,_⟩ | rebuilt
  · exact same
  · exact (full_rebuild_mirrored rebuilt).1

theorem Step.ages {s t : State} {action : Action} (step : Step host ctx s action t) :
    s.engine.storage.toTables.Ages t.engine.storage.toTables := by
  cases step with
  | commit committed =>
    obtain ⟨write,_,written⟩ := commit_writes committed
    exact PortWrite.ages _ written
  | store self call committed => exact PortWrite.ages self committed
  | reopen opened => exact .same (by rw [opened.storage]) (by rw [opened.storage]) (by rw [opened.storage])
  | _ => exact .refl _

theorem mem_stage {flushes front rest : List Flush} {before after flush : Flush} (turn : flushes = front ++ before :: rest)
    (member : flush ∈ front ++ after :: rest) : flush ∈ flushes ∨ flush = after := by
  rw [turn]
  rcases List.mem_append.mp member with early | late
  · exact .inl (List.mem_append_left _ early)
  · rcases List.mem_cons.mp late with rfl | later
    · exact .inr rfl
    · exact .inl (List.mem_append_right _ (List.mem_cons_of_mem _ later))

theorem mem_fewer {flushes front rest : List Flush} {before flush : Flush} (turn : flushes = front ++ before :: rest)
    (member : flush ∈ front ++ rest) : flush ∈ flushes := by
  rw [turn,List.mem_append,List.mem_cons]
  exact (List.mem_append.mp member).imp_right .inr

theorem mem_turn {flushes front rest : List Flush} {flush : Flush} (turn : flushes = front ++ flush :: rest) : flush ∈ flushes := by
  rw [turn]
  exact List.mem_append_right _ List.mem_cons_self

/-- What is held was held before, or its fingerprint has just been read. -/
theorem held_step (headers : host.lib.header.RoundTrips) (payloads : host.lib.payload.RoundTrips) {s t : State} {action : Action}
    (step : Step host ctx s action t) {fingerprint : DbFingerprint} {graph : List GraphEdgeSnapshot} (held : Held host t fingerprint graph) :
    Held host s fingerprint graph ∨ action = .fingerprint graph ∧ fingerprint = s.engine.storage.toTables.fingerprint := by
  -- a flush that has just come to one of its stages, among the others
  have stage : ∀ {front rest : List Flush} {before after : Flush}, s.flushes = front ++ before :: rest →
      (∃ flush ∈ front ++ after :: rest, flush.stamp = some (fingerprint,graph)) →
        (∃ flush ∈ s.flushes, flush.stamp = some (fingerprint,graph)) ∨ after.stamp = some (fingerprint,graph) := by
    rintro front rest before after turn ⟨flush,member,stamped⟩
    rcases mem_stage turn member with old | rfl
    · exact .inl ⟨flush,old,stamped⟩
    · exact .inr stamped
  have fewer : ∀ {front rest : List Flush} {before : Flush}, s.flushes = front ++ before :: rest →
      (∃ flush ∈ front ++ rest, flush.stamp = some (fingerprint,graph)) → ∃ flush ∈ s.flushes, flush.stamp = some (fingerprint,graph) := by
    rintro front rest before turn ⟨flush,member,stamped⟩
    exact ⟨flush,mem_fewer turn member,stamped⟩
  cases step with
  | commit committed => exact .inl held
  | store self call committed => exact .inl held
  | patch turn => exact .inl held
  | read turn listed => exact .inl held
  | replace turn => exact .inl held
  | scopes tree => exact .inl held
  | copy_graph =>
    rcases held with ⟨flush,member,stamped⟩ | filed
    · rcases List.mem_cons.mp member with rfl | old
      · cases stamped
      · exact .inl (.inl ⟨flush,old,stamped⟩)
    · exact .inl (.inr filed)
  | copy_scopes turn =>
    rcases held with flushing | filed
    · rcases stage turn flushing with old | new
      · exact .inl (.inl old)
      · cases new
    · exact .inl (.inr filed)
  | fingerprint turn read =>
    rcases held with flushing | filed
    · rcases stage turn flushing with old | new
      · exact .inl (.inl old)
      · obtain ⟨rfl,_⟩ := commits_query.mp read
        simp only [Flush.stamp,Option.some.injEq,Prod.mk.injEq] at new
        obtain ⟨rfl,rfl⟩ := new
        exact .inr ⟨rfl,rfl⟩
    · exact .inl (.inr filed)
  | @assemble front rest header edges scope_tree hnsw turn listed =>
    rcases held with flushing | filed
    · rcases stage turn flushing with old | new
      · exact .inl (.inl old)
      · exact .inl (.inl ⟨.fingerprinted header edges scope_tree,mem_turn turn,new⟩)
    · exact .inl (.inr filed)
  | @write front rest header payload data turn written =>
    rcases held with flushing | ⟨embed_dim,header',payload',loaded,rfl,rfl⟩
    · exact .inl (.inl (fewer turn flushing))
    · obtain ⟨rfl,rfl⟩ := loaded_of_written headers payloads written loaded
      exact .inl (.inl ⟨.assembled header' payload',mem_turn turn,rfl⟩)
  | abandon turn =>
    rcases held with flushing | filed
    · exact .inl (.inl (fewer turn flushing))
    · exact .inl (.inr filed)
  | reopen opened =>
    rcases held with ⟨flush,member,_⟩ | filed
    · cases member
    · exact .inl (.inr filed)

/-- Everything that is held was sound when its fingerprint was read. -/
def Kept (host : SnapshotHost) (s : State) : Prop :=
  ∀ fingerprint graph, Held host s fingerprint graph → Sealed fingerprint graph s.engine.storage.toTables

theorem kept_step (headers : host.lib.header.RoundTrips) (payloads : host.lib.payload.RoundTrips) {s t : State} {action : Action}
    (kept : Kept host s) (timely : Timely s action) (step : Step host ctx s action t) : Kept host t := by
  intro fingerprint graph held
  rcases held_step headers payloads step held with old | ⟨rfl,rfl⟩
  · exact (kept fingerprint graph old).ages step.ages
  · exact ⟨s.engine.storage.toTables,step.ages,rfl,timely⟩

theorem Run.kept (headers : host.lib.header.RoundTrips) (payloads : host.lib.payload.RoundTrips) {s t : State}
    (run : Run host ctx Timely s t) (kept : Kept host s) : Kept host t := by
  induction run with
  | refl => exact kept
  | step before step may ih => exact kept_step headers payloads ih may step

theorem Kept.faithful {s : State} (kept : Kept host s) : Faithful host s := fun fingerprint graph held => (kept fingerprint graph held).honest

/-- With no file and no flush nothing is held. -/
theorem kept_start {s : State} (idle : s.flushes = []) (missing : s.sidecar = .missing) : Kept host s := by
  rintro fingerprint graph (⟨flush,member,_⟩ | ⟨embed_dim,header,payload,loaded,_⟩)
  · rw [idle] at member
    cases member
  · rw [missing] at loaded
    cases loaded

/-- After one more step the snapshots are faithful if and only if the step was timely. -/
theorem faithful_step (headers : host.lib.header.RoundTrips) (payloads : host.lib.payload.RoundTrips) {s t : State} {action : Action}
    (kept : Kept host s) (step : Step host ctx s action t) : Faithful host t ↔ Timely s action := by
  refine ⟨fun faithful => ?_,fun timely => (kept_step headers payloads kept timely step).faithful⟩
  cases step with
  | @fingerprint front rest graph scope_tree fingerprint turn read =>
    obtain ⟨rfl,_⟩ := commits_query.mp read
    have held : Held host { s with flushes := front ++ .fingerprinted (snapshot_header ctx s.engine.storage.toTables.fingerprint) graph scope_tree :: rest }
        s.engine.storage.toTables.fingerprint graph := .inl ⟨_,List.mem_append_right _ List.mem_cons_self,rfl⟩
    by_cases betrayed : Betrayed graph s.engine.storage.toTables
    · exact .inr betrayed
    · exact .inl (faithful _ _ held rfl betrayed)
  | _ => trivial

/-- An opening in a faithful state takes the active edges or rebuilds. -/
theorem opened_of_faithful {s : State} (faithful : Faithful host s) {embed_dim : Nat} {graph : MemoryGraph} {scope_tree : ScopeTree}
    {hnsw : Option (List HnswEntry)} (opened : try_load_snapshot host s.sidecar embed_dim s.engine.storage.toTables = some (some (graph,scope_tree,hnsw))) :
    graph.view = s.engine.storage.activeEdges := by
  obtain ⟨_,header,payload,loaded,same,passes,edges,_⟩ := loads_iff.mp ⟨graph,opened,rfl⟩
  rw [← edges]
  exact faithful _ _ (.inr ⟨embed_dim,header,payload,loaded,rfl,rfl⟩) same passes

/-- In every interleaving in which each fingerprint is read while the copied edges are the active
    ones, or would not pass, every opening takes the active edges or rebuilds; and one more
    step leaves all snapshots faithful if and only if it is timely again. -/
theorem opened_edges_iff_timely (headers : host.lib.header.RoundTrips) (payloads : host.lib.payload.RoundTrips) {s t u : State} {action : Action}
    (idle : s.flushes = []) (missing : s.sidecar = .missing) (run : Run host ctx Timely s t) (step : Step host ctx t action u) :
    (∀ embed_dim graph scope_tree hnsw, try_load_snapshot host t.sidecar embed_dim t.engine.storage.toTables = some (some (graph,scope_tree,hnsw)) →
        graph.view = t.engine.storage.activeEdges) ∧ (Faithful host u ↔ Timely t action) := by
  have kept := run.kept headers payloads (kept_start idle missing)
  exact ⟨fun _ _ _ _ opened => opened_of_faithful kept.faithful opened,faithful_step headers payloads kept step⟩

theorem timely_of_other {s : State} {action : Action} (other : ∀ graph, action ≠ .fingerprint graph) : Timely s action := by
  cases action with
  | fingerprint graph => exact absurd rfl (other graph)
  | _ => trivial

/-- The rest of a flush that is not interrupted after its copy of the graph. -/
theorem Run.flushed {allowed : State → Action → Prop} {s : State} {t : Engine} {tasks : List Task} {flushes : List Flush} {sidecar : Sidecar}
    {graph : List GraphEdgeSnapshot} {hnsw : Option (List HnswEntry)} {data : List UInt8}
    (before : Run host ctx allowed s ⟨t,tasks,.graph graph :: flushes,sidecar⟩)
    (free : ∀ m action, (∀ graph, action ≠ .fingerprint graph) → allowed m action)
    (may : allowed ⟨t,tasks,.projections graph t.scope_tree.to_snapshot :: flushes,sidecar⟩ (.fingerprint graph))
    (listed : Commits (hnsw_snap host ctx) t.storage hnsw t.storage)
    (written : write_to_file host.lib (snapshot_header ctx t.storage.toTables.fingerprint) ⟨graph,t.scope_tree.to_snapshot,hnsw⟩ = .ok data) :
    Run host ctx allowed s ⟨t,tasks,flushes,.file data⟩ := by
  have second : Step host ctx ⟨t,tasks,.graph graph :: flushes,sidecar⟩ .copy
      ⟨t,tasks,.projections graph t.scope_tree.to_snapshot :: flushes,sidecar⟩ := @Step.copy_scopes _ _ _ [] _ _ rfl
  have third : Step host ctx ⟨t,tasks,.projections graph t.scope_tree.to_snapshot :: flushes,sidecar⟩ (.fingerprint graph)
      ⟨t,tasks,.fingerprinted (snapshot_header ctx t.storage.toTables.fingerprint) graph t.scope_tree.to_snapshot :: flushes,sidecar⟩ :=
    @Step.fingerprint _ _ _ [] _ _ _ _ rfl (commits_query.mpr ⟨rfl,rfl⟩)
  have fourth : Step host ctx
      ⟨t,tasks,.fingerprinted (snapshot_header ctx t.storage.toTables.fingerprint) graph t.scope_tree.to_snapshot :: flushes,sidecar⟩ .assemble
      ⟨t,tasks,.assembled (snapshot_header ctx t.storage.toTables.fingerprint) ⟨graph,t.scope_tree.to_snapshot,hnsw⟩ :: flushes,sidecar⟩ :=
    @Step.assemble _ _ _ [] _ _ _ _ _ rfl listed
  have fifth : Step host ctx
      ⟨t,tasks,.assembled (snapshot_header ctx t.storage.toTables.fingerprint) ⟨graph,t.scope_tree.to_snapshot,hnsw⟩ :: flushes,sidecar⟩ .write
      ⟨t,tasks,flushes,.file data⟩ := @Step.write _ _ _ [] _ _ _ _ rfl written
  have read := (before.step second (free _ _ nofun)).step third may
  exact (read.step fourth (free _ _ nofun)).step fifth (free _ _ nofun)

/-- A flush that nothing interrupts, of a graph that holds the active edges, is a run of timely
    steps. -/
theorem run_flush_snapshot {s t : Engine} {data : List UInt8} (committed : Commits (flush_snapshot host ctx) s (some data) t) (mirrored : s.Mirrored)
    (tasks : List Task) (flushes : List Flush) (sidecar : Sidecar) :
    Run host ctx Timely ⟨s,tasks,flushes,sidecar⟩ ⟨t,tasks,flushes,.file data⟩ := by
  obtain ⟨rfl,hnsw,listed,written⟩ := commits_flush_snapshot committed
  have copied : Run host ctx Timely ⟨t,tasks,flushes,sidecar⟩ ⟨t,tasks,.graph t.graph.to_snapshot :: flushes,sidecar⟩ :=
    Run.refl.step .copy_graph trivial
  exact copied.flushed (fun _ _ => timely_of_other) (.inl mirrored) listed written

end FlushRace

namespace Sample

def flushHeader : SnapshotHeader := ⟨FORMAT_VERSION,⟨4,3,2,1,1,1⟩,1,ENGINE_VERSION⟩

def flushPayload : SnapshotPayload := ⟨engine.graph.to_snapshot,engine.scope_tree.to_snapshot,none⟩

def flushHeaderBytes : List UInt8 :=
  [0x84] ++ fixstr "format_version" ++ [2] ++ fixstr "fingerprint" ++ [0x86] ++ fixstr "max_fact_id" ++ [4] ++
    fixstr "active_fact_count" ++ [3] ++ fixstr "max_edge_id" ++ [2] ++ fixstr "active_edge_count" ++ [1] ++
    fixstr "max_scope_id" ++ [1] ++ fixstr "scope_count" ++ [1] ++ fixstr "embed_dim" ++ [1] ++ fixstr "engine_version" ++ fixstr "0.1.0"

def flushPayloadBytes : List UInt8 :=
  [0x83] ++ fixstr "graph" ++ [0x81] ++ fixstr "edges" ++ [0x91,0x85] ++ fixstr "edge_id" ++ [1] ++ fixstr "source" ++ [1] ++ fixstr "target" ++ [3] ++
    fixstr "relation_type" ++ fixstr "co_session" ++ fixstr "weight" ++ [0xCB,0x3F,0xF0,0,0,0,0,0,0] ++
    fixstr "scope_tree" ++ [0x81] ++ fixstr "nodes" ++ [0x91,0x84] ++ fixstr "id" ++ [1] ++ fixstr "parent_id" ++ [0xC0] ++
    fixstr "label" ++ fixstr "root" ++ fixstr "depth" ++ [0] ++ fixstr "hnsw" ++ [0xC0]

/-- A process without an index of vectors. -/
def flushHost : SnapshotHost where
  lib := {
    header := codecAt flushHeader flushHeaderBytes
    payload := codecAt flushPayload flushPayloadBytes
    blake3 _ := #v[46,2,37,40,13,240,23,54,178,94,25,97,65,63,209,44,71,236,109,32,176,107,99,51,62,210,249,111,205,66,166,204] }
  file_backed := true
  ann := false

end Sample

namespace FlushRace

theorem flush_headers : Sample.flushHost.lib.header.RoundTrips := Sample.codecAt_roundTrips _ (List.cons_ne_nil _ _)

theorem flush_payloads : Sample.flushHost.lib.payload.RoundTrips := Sample.codecAt_roundTrips _ (List.cons_ne_nil _ _)

/-- The file of a flush whose fingerprint is read after the commit. -/
theorem flush_written : ∃ data, write_to_file Sample.flushHost.lib Sample.flushHeader Sample.flushPayload = .ok data ∧
    load_from_file Sample.flushHost.lib (.file data) Sample.flushHeader.embed_dim = some (some (Sample.flushHeader,Sample.flushPayload)) := by
  have short : Sample.flushHeaderBytes.length = 153 := by decide +kernel
  have small : Sample.flushPayloadBytes.length = 141 := by decide +kernel
  have first : Sample.flushHost.lib.header.to_vec_named Sample.flushHeader = .ok Sample.flushHeaderBytes := by
    simp [Sample.flushHost,Sample.codecAt]
  have second : Sample.flushHost.lib.payload.to_vec_named Sample.flushPayload = .ok Sample.flushPayloadBytes := by
    simp [Sample.flushHost,Sample.codecAt]
  have written := write_to_file_ok first second (by rw [short]; decide)
  have sized : Sized Sample.flushPayload Sample.flushHeader.embed_dim := by
    rintro entries ⟨⟩
  have loaded := load_written flush_headers flush_payloads rfl sized written
  refine ⟨_,written,loaded ?_⟩
  rw [List.length_append,List.length_append,List.length_append,length_leBytes,short,small,Vector.length_toList]
  decide

/-- The edge of the sample passes where there is one active edge and both of its ends exist. -/
theorem flush_passes {t : Tables} (single : t.fingerprint.active_edge_count = 1) (present : [1,3] ⊆ t.facts.rows.map Fact.id) :
    ¬ Betrayed Sample.flushPayload.graph t := by
  have edges : Sample.flushPayload.graph = [⟨1,1,3,.CoSession,F64.ofRat 1⟩] := by decide +kernel
  rw [edges]
  rintro (several | many | ⟨e,member,refused⟩)
  · exact several (Int.ofNat.inj single).symm
  · exact absurd many (by decide)
  · rw [List.mem_singleton.mp member] at refused
    exact refused ⟨by decide,by decide,List.mem_toFinset.mpr (present (by decide)),List.mem_toFinset.mpr (present (by decide))⟩

/-- Nothing happens between the copy of the graph and the reading of the fingerprint. -/
theorem opened_edges_iff_timely_sample :
    (∀ embed_dim graph scope_tree hnsw, try_load_snapshot Sample.flushHost .missing embed_dim Sample.engine.storage.toTables =
      some (some (graph,scope_tree,hnsw)) → graph.view = Sample.engine.storage.activeEdges) ∧
    (Faithful Sample.flushHost ⟨Sample.engine,[],[.fingerprinted (snapshot_header Sample.ctx Sample.engine.storage.toTables.fingerprint)
        Sample.flushPayload.graph Sample.flushPayload.scope_tree],.missing⟩ ↔
      Timely ⟨Sample.engine,[],[.projections Sample.flushPayload.graph Sample.flushPayload.scope_tree],.missing⟩
        (.fingerprint Sample.flushPayload.graph)) := by
  have first : Step Sample.flushHost Sample.ctx ⟨Sample.engine,[],[],.missing⟩ .copy ⟨Sample.engine,[],[.graph Sample.flushPayload.graph],.missing⟩ :=
    .copy_graph
  have second : Step Sample.flushHost Sample.ctx ⟨Sample.engine,[],[.graph Sample.flushPayload.graph],.missing⟩ .copy
      ⟨Sample.engine,[],[.projections Sample.flushPayload.graph Sample.flushPayload.scope_tree],.missing⟩ := @Step.copy_scopes _ _ _ [] _ _ rfl
  exact opened_edges_iff_timely flush_headers flush_payloads rfl rfl ((Run.refl.step first trivial).step second trivial)
    (@Step.fingerprint _ _ _ [] _ _ _ _ rfl (commits_query.mpr ⟨rfl,rfl⟩))

/-- A fact is replaced between the copy of the graph and the reading of the fingerprint: one edge
    goes and one comes, so neither number nor ends give the copied edge away, and the next
    opening takes an edge that has expired and misses the one that is active. -/
theorem copied_edge_survives : ¬ ∀ (host : SnapshotHost) (ctx : MemoryCtx) (s t : State), host.lib.header.RoundTrips → host.lib.payload.RoundTrips →
    s.engine.Mirrored → s.tasks = [] → s.flushes = [] → s.sidecar = .missing → Run host ctx (fun _ _ => True) s t →
      ∀ embed_dim graph scope_tree hnsw, try_load_snapshot host t.sidecar embed_dim t.engine.storage.toTables = some (some (graph,scope_tree,hnsw)) →
        graph.view = t.engine.storage.activeEdges := by
  intro claim
  have ran : Ends ((WriteCall.resolve_conflict .Update 1 (Sample.newFact "d") Sample.moment).commit Sample.backend) Sample.engine.storage
      (fun _ t => decide (t.toTables.fingerprint = Sample.flushHeader.fingerprint ∧ t.facts.rows.map Fact.id = [1,2,3,4] ∧
        t.toTables.activeEdges ≠ (Sample.engine.graph.to_snapshot : Multiset GraphEdgeSnapshot))) = true := by decide +kernel
  obtain ⟨task,db,committed,found⟩ := commits_of_ends ran
  obtain ⟨current,ids,differ⟩ := of_decide_eq_true found
  obtain ⟨data,written,loaded⟩ := flush_written
  obtain ⟨resolution,_,resolved,last⟩ := commits_bind.mp committed
  obtain ⟨rfl,rfl⟩ := commits_pure.mp last
  have mirrored : Sample.engine.Mirrored := by
    unfold Engine.Mirrored
    decide +kernel
  -- the copy of the graph, the commit with its patch, and the rest of the flush
  have copied : Run Sample.flushHost Sample.ctx (fun _ _ => True) ⟨Sample.engine,[],[],.missing⟩
      ⟨Sample.engine,[],[.graph Sample.flushPayload.graph],.missing⟩ := Run.refl.step .copy_graph trivial
  have commit : Step Sample.flushHost Sample.ctx ⟨Sample.engine,[],[.graph Sample.flushPayload.graph],.missing⟩ .commit
      ⟨{ Sample.engine with storage := db },[.patching (.resolution .Update 1 resolution)],[.graph Sample.flushPayload.graph],.missing⟩ :=
    .commit committed
  have patch : Step Sample.flushHost Sample.ctx
      ⟨{ Sample.engine with storage := db },[.patching (.resolution .Update 1 resolution)],[.graph Sample.flushPayload.graph],.missing⟩ .mirror
      ⟨⟨db,(Patch.resolution .Update 1 resolution).run Sample.engine.graph,Sample.engine.scope_tree⟩,[],[.graph Sample.flushPayload.graph],.missing⟩ :=
    @Step.patch _ _ _ [] _ _ rfl
  have header : snapshot_header Sample.ctx db.toTables.fingerprint = Sample.flushHeader := by
    rw [current]
    rfl
  have run := ((copied.step commit trivial).step patch trivial).flushed (fun _ _ _ => trivial) trivial
    (commits_pure.mpr ⟨rfl,rfl⟩ : Commits (hnsw_snap Sample.flushHost Sample.ctx) db none db) (header ▸ written)
  have passes := flush_passes (congrArg DbFingerprint.active_edge_count current) (by rw [ids]; decide)
  obtain ⟨graph,opened,edges⟩ := loads_iff.mpr ⟨rfl,_,_,loaded,current.symm,passes,rfl,rfl,rfl⟩
  have same := claim _ _ _ _ flush_headers flush_payloads mirrored rfl rfl rfl run _ graph _ _ opened
  exact differ (same.symm.trans edges)

end FlushRace
end MemoryEngine
