import MemoryEngine.FlushRace
import MemoryEngine.ReconstructRace
import MemoryEngine.ScopeWalks

/-! The snapshot file after a crash, against a rebuild. Keys and expiries are in the
fingerprint and vectors are not: a promotion rewrites the vector of every fact under the
fingerprint of the file, which lists the vectors from before. -/

namespace MemoryEngine
open Time KeyedTable Transaction Search Snapshot FactVectors Framing

namespace CrashReopen
open FlushRace (State Flush)

/-- What a step does, with the contents of the tables after a commit. -/
inductive Action where
  | commit (after : Tables)
  | promote (populating : String)
  | fingerprint (graph : List GraphEdgeSnapshot) (scope_tree : List ScopeNode)
  | other

/-- The steps that neither write the database nor read the fingerprint. -/
def Aside : FlushRace.Action → Prop
  | .commit => False
  | .fingerprint _ => False
  | _ => True

section system
variable (host : SnapshotHost) (ctx : MemoryCtx)

/-- The steps of flushes and other operations, with the promotions apart. -/
inductive Step : State → Action → State → Prop where
  | commit {s : State} {call : WriteCall} {task : Task} {db : Db} (committed : Commits (call.commit ctx.backend) s.engine.storage task db) :
      Step s (.commit db.toTables) { s.stored db with tasks := task :: s.tasks }
  | store {s : State} {db : Db} (self : SqliteBackend) (call : PortWrite) (kind : ∀ populating, call ≠ .promote_space populating)
      (committed : Commits (call.run self) s.engine.storage () db) : Step s (.commit db.toTables) (s.stored db)
  | promote {s : State} {populating : String} {outcome : PromoteOutcome} {db : Db}
      (committed : Commits (promote_space populating) s.engine.storage outcome db) : Step s (.promote populating) (s.stored db)
  | fingerprint {s : State} {front rest : List Flush} {graph : List GraphEdgeSnapshot} {scope_tree : List ScopeNode} {fingerprint : DbFingerprint}
      (turn : s.flushes = front ++ .projections graph scope_tree :: rest)
      (read : Commits read_fingerprint s.engine.storage fingerprint s.engine.storage) :
      Step s (.fingerprint graph scope_tree) { s with flushes := front ++ .fingerprinted (snapshot_header ctx fingerprint) graph scope_tree :: rest }
  | other {s t : State} {action : FlushRace.Action} (step : FlushRace.Step host ctx s action t) (aside : Aside action) : Step s .other t

/-- The interleavings whose steps are allowed. -/
inductive Run (allowed : State → Action → Prop) (s : State) : State → Prop where
  | refl : Run allowed s s
  | step {m t : State} {action : Action} (before : Run allowed s m) (step : Step host ctx m action t) (may : allowed m action) : Run allowed s t

/-- The vectors of the active facts, as a rebuild of the index reads them. -/
def Lists (embed_dim : Nat) (t : Tables) (entries : List HnswEntry) : Prop := t.activeFacts.mapM (hnsw_entry embed_dim) = .ok entries

/-- The edges and the nodes are those of the tables. -/
def Caught (graph : List GraphEdgeSnapshot) (scope_tree : List ScopeNode) (t : Tables) : Prop :=
  (graph : Multiset GraphEdgeSnapshot) = t.activeEdges ∧ (ScopeTree.from_snapshot scope_tree).nodes.Perm t.scopes.rows

/-- The payload has what a rebuild from the tables gives. -/
structure Mirrors (header : SnapshotHeader) (payload : SnapshotPayload) (t : Tables) : Prop where
  caught : Caught payload.graph payload.scope_tree t
  vectors : ∀ entries ∈ payload.hnsw, Lists header.embed_dim t entries

/-- Under the fingerprint, and with edges that pass the checks. -/
def Accepted (header : SnapshotHeader) (payload : SnapshotPayload) (t : Tables) : Prop :=
  header.fingerprint = t.fingerprint ∧ ¬ Betrayed payload.graph t

/-- As many facts are listed as the fingerprint counts, and those among the given facts have
    the vectors that are listed for them. -/
def Agrees (header : SnapshotHeader) (payload : SnapshotPayload) (facts : List Fact) : Prop :=
  ∀ entries ∈ payload.hnsw, (entries.length : Int) = header.fingerprint.active_fact_count ∧
    ∀ e ∈ entries, ∀ f ∈ facts, f.id = e.fact_id → f.embedding = e.embedding

/-- The header and the payload of a flush, once it has read the fingerprint. -/
def drafted : Flush → Option (SnapshotHeader × SnapshotPayload)
  | .fingerprinted header graph scope_tree => some (header,⟨graph,scope_tree,none⟩)
  | .assembled header payload => some (header,payload)
  | _ => none

/-- A snapshot in a flush under way or in the file. -/
def Held (s : State) (header : SnapshotHeader) (payload : SnapshotPayload) : Prop :=
  (∃ flush ∈ s.flushes, drafted flush = some (header,payload)) ∨ ∃ embed_dim, load_from_file host.lib s.sidecar embed_dim = some (some (header,payload))

/-- No snapshot would be accepted that differs from a rebuild. -/
def Faithful (s : State) : Prop := ∀ header payload, Held host s header payload → Accepted header payload s.engine.storage.toTables →
  Mirrors header payload s.engine.storage.toTables

/-- A flush reads the fingerprint while its copies are those of the tables, or while their
    edges would not pass. Under the fingerprint of a snapshot, a promotion gives the facts
    the vectors that the snapshot lists, and a commit brings that fingerprint about only
    while they have them. -/
def Timely (s : State) : Action → Prop
  | .commit after => ∀ header payload, Held host s header payload → Accepted header payload after →
      Agrees header payload s.engine.storage.activeFacts
  | .promote populating => ∀ header payload, Held host s header payload → Accepted header payload s.engine.storage.toTables →
      Agrees header payload (s.engine.storage.activeFacts.map (swapped s.engine.storage.toTables populating))
  | .fingerprint graph scope_tree => Betrayed graph s.engine.storage.toTables ∨ Caught graph scope_tree s.engine.storage.toTables
  | .other => True

end system

/-- The entry of a fact in the index. -/
def entry (f : Fact) : HnswEntry := ⟨f.id,f.embedding⟩

theorem lists_iff {embed_dim : Nat} {t : Tables} {entries : List HnswEntry} :
    Lists embed_dim t entries ↔ (∀ f ∈ t.activeFacts, f.embedding.length = embed_dim) ∧ entries = t.activeFacts.map entry := by
  refine mapM_ok_iff fun f e => ?_
  unfold hnsw_entry deserialize_embedding
  split
  · rename_i sized
    simp [pure,Except.pure,bind,Except.bind,entry,sized,eq_comm]
  · rename_i sized
    simp [bind,Except.bind,sized]

/-- The edges and the nodes were those of the tables when the fingerprint was read, or were
    betrayed, and the vectors were read then or later. -/
def Sealed (header : SnapshotHeader) (payload : SnapshotPayload) (t : Tables) : Prop := ∃ s : Tables, s.Ages t ∧
  header.fingerprint = s.fingerprint ∧ (Betrayed payload.graph s ∨ Caught payload.graph payload.scope_tree s) ∧
    ∀ entries ∈ payload.hnsw, ∃ m : Tables, s.Ages m ∧ m.Ages t ∧ Lists header.embed_dim m entries

section snapshot
variable {header : SnapshotHeader} {payload : SnapshotPayload} {s t : Tables}

theorem Sealed.ages (held : Sealed header payload s) (later : s.Ages t) : Sealed header payload t := by
  obtain ⟨first,ages,same,sound,listed⟩ := held
  refine ⟨first,ages.trans later,same,sound,fun entries member => ?_⟩
  obtain ⟨m,early,late,entered⟩ := listed entries member
  exact ⟨m,early,late.trans later,entered⟩

theorem Caught.later {graph : List GraphEdgeSnapshot} {scope_tree : List ScopeNode} (caught : Caught graph scope_tree s) (ages : s.Ages t)
    (same : t.fingerprint = s.fingerprint) : Caught graph scope_tree t := by
  have edges : t.activeEdges = s.activeEdges := congrArg Multiset.ofList (ages.active_edges same)
  rw [Caught,edges,ages.scopes_eq same]
  exact caught

/-- While the fingerprint stays, no fact comes to be active. -/
theorem known {m : Tables} (ages : s.Ages t) (same : t.fingerprint = s.fingerprint) (later : s.facts.seq ≤ m.facts.seq) {f : Fact}
    (active : f ∈ t.activeFacts) : Row.key f ≤ m.facts.seq := by
  have listed : f.id ∈ (s.facts.liveRows Fact.active).map Fact.id := ages.active_facts same ▸ List.mem_map_of_mem active
  obtain ⟨first,standing,named⟩ := List.mem_map.mp listed
  have below : first.id ≤ s.facts.seq := s.facts.allocated first (List.mem_filter.mp standing).1
  rw [named] at below
  exact below.trans later

/-- The vectors of an accepted snapshot are those of the tables when the facts have the
    vectors that it lists. -/
theorem Sealed.lists_of_agrees (held : Sealed header payload t) (same : header.fingerprint = t.fingerprint) (agrees : Agrees header payload t.activeFacts) :
    ∀ entries ∈ payload.hnsw, Lists header.embed_dim t entries := by
  intro entries member
  obtain ⟨s,ages,stamped,_,listed⟩ := held
  obtain ⟨m,early,late,entered⟩ := listed entries member
  obtain ⟨sized,rfl⟩ := lists_iff.mp entered
  obtain ⟨counted,equal⟩ := agrees _ member
  -- an active fact was active when the vectors were read
  have within : ∀ f ∈ t.activeFacts, ∃ g ∈ m.activeFacts, g.id = f.id ∧ f.embedding = g.embedding := by
    intro f active
    have low := known ages (same.symm.trans stamped) early.facts.seq active
    obtain ⟨stored,alive⟩ := List.mem_filter.mp active
    obtain ⟨g,there,tagged,later⟩ := late.facts.old f stored low
    have standing' : g ∈ m.activeFacts := List.mem_filter.mpr ⟨there,by simpa using later (by simpa using alive)⟩
    exact ⟨g,standing',tagged,equal _ (List.mem_map_of_mem standing') f active tagged.symm⟩
  have whole : t.activeFacts.map entry = m.activeFacts.map entry := by
    refine @Table.live_eq_of_subset _ _ Fact.active _ _ _ _ (fun pair there => ?_) ?_
    · obtain ⟨f,active,rfl⟩ := List.mem_map.mp there
      obtain ⟨g,standing,named,vector⟩ := within f active
      exact List.mem_map.mpr ⟨g,standing,Prod.ext named (by rw [entry,entry,named,vector])⟩
    · have count : ((m.activeFacts.map entry).length : Int) = (t.facts.liveRows Fact.active).length :=
        counted.trans (congrArg DbFingerprint.active_fact_count same)
      rw [List.length_map] at count
      exact le_of_eq (Int.ofNat.inj count)
  refine lists_iff.mpr ⟨fun f active => ?_,whole.symm⟩
  obtain ⟨g,standing,_,vector⟩ := within f active
  rw [vector]
  exact sized g standing

theorem agrees_of_lists (same : header.fingerprint = t.fingerprint) (listed : ∀ entries ∈ payload.hnsw, Lists header.embed_dim t entries) :
    Agrees header payload t.activeFacts := by
  intro entries member
  obtain ⟨_,rfl⟩ := lists_iff.mp (listed entries member)
  refine ⟨?_,fun e entered f active named => ?_⟩
  · rw [List.length_map,same]
    rfl
  · obtain ⟨g,standing,rfl⟩ := List.mem_map.mp entered
    rw [t.facts.key_unique (List.mem_filter.mp active).1 (List.mem_filter.mp standing).1 named]
    rfl

/-- An accepted snapshot has what a rebuild gives if and only if the active facts have the
    vectors that it lists. -/
theorem Sealed.mirrors_iff (held : Sealed header payload t) (accepted : Accepted header payload t) :
    Mirrors header payload t ↔ Agrees header payload t.activeFacts := by
  refine ⟨fun mirrors => agrees_of_lists accepted.1 mirrors.vectors,fun agrees => ⟨?_,held.lists_of_agrees accepted.1 agrees⟩⟩
  obtain ⟨s,ages,stamped,sound,_⟩ := held
  have same := accepted.1.symm.trans stamped
  rcases sound with betrayed | caught
  · exact absurd (FlushRace.Betrayed.later betrayed ages same) accepted.2
  · exact caught.later ages same

/-- An active fact that is not new was active before, with the same vector. -/
theorem before (ages : s.Ages t) (vectors : s.facts.Ages Fact.SameVector t.facts) {f : Fact} (low : Row.key f ≤ s.facts.seq)
    (active : f ∈ t.activeFacts) : ∃ g ∈ s.activeFacts, g.id = f.id ∧ f.embedding = g.embedding := by
  obtain ⟨stored,alive⟩ := List.mem_filter.mp active
  obtain ⟨g,there,tagged,later⟩ := ages.facts.old f stored low
  obtain ⟨g',there',tagged',vector⟩ := vectors.old f stored low
  obtain rfl := s.facts.key_unique there there' (tagged.trans tagged'.symm)
  exact ⟨g,List.mem_filter.mpr ⟨there,by simpa using later (by simpa using alive)⟩,tagged,vector⟩

/-- Before a commit that keeps the vectors, the facts have the listed ones just in case the
    snapshot has what a rebuild gives after it. -/
theorem Sealed.mirrors_commit (held : Sealed header payload s) (ages : s.Ages t) (vectors : s.facts.Ages Fact.SameVector t.facts)
    (accepted : Accepted header payload t) : Mirrors header payload t ↔ Agrees header payload s.activeFacts := by
  have later := held.ages ages
  have low : ∀ f ∈ t.activeFacts, Row.key f ≤ s.facts.seq := by
    obtain ⟨first,early,stamped,_⟩ := held
    exact fun f active => known (early.trans ages) (accepted.1.symm.trans stamped) early.facts.seq active
  constructor
  · intro mirrors entries member
    obtain ⟨counted,_⟩ := agrees_of_lists accepted.1 mirrors.vectors entries member
    obtain ⟨_,rfl⟩ := lists_iff.mp (mirrors.vectors entries member)
    refine ⟨counted,fun e entered g standing named => ?_⟩
    obtain ⟨f,active,rfl⟩ := List.mem_map.mp entered
    obtain ⟨g',standing',named',vector⟩ := before ages vectors (low f active) active
    rw [s.facts.key_unique (List.mem_filter.mp standing).1 (List.mem_filter.mp standing').1 (named.trans named'.symm)]
    exact vector.symm
  · intro agrees
    refine (later.mirrors_iff accepted).mpr fun entries member => ?_
    obtain ⟨counted,equal⟩ := agrees entries member
    refine ⟨counted,fun e entered f active named => ?_⟩
    obtain ⟨g,standing,named',vector⟩ := before ages vectors (low f active) active
    rw [vector]
    exact equal e entered g standing (named'.trans named)

theorem promoted_rows (t : Tables) (active populating : String) :
    (promoted t active populating).facts.rows = t.facts.rows.map (swapped t populating) := rfl

theorem promoted_activeFacts (t : Tables) (active populating : String) :
    (promoted t active populating).activeFacts = t.activeFacts.map (swapped t populating) := by
  rw [Tables.activeFacts,promoted_rows,List.filter_map]
  rfl

theorem promoted_fingerprint (t : Tables) (active populating : String) : (promoted t active populating).fingerprint = t.fingerprint := by
  have keys : (promoted t active populating).facts.maxKey = t.facts.maxKey := by
    rw [Table.maxKey,promoted_rows,List.map_map]
    rfl
  have count : ((promoted t active populating).facts.liveRows Fact.active).length = (t.facts.liveRows Fact.active).length := by
    have mapped := congrArg List.length (promoted_activeFacts t active populating)
    rwa [List.length_map] at mapped
  rw [Tables.fingerprint,keys,count]
  rfl

/-- A promotion shows in none of the checks of an opening. -/
theorem accepted_promoted {active populating : String} :
    Accepted header payload (promoted t active populating) ↔ Accepted header payload t := by
  have ids : existing_fact_ids (promoted t active populating) = existing_fact_ids t := by
    rw [existing_fact_ids,promoted_rows,List.map_map]
    rfl
  rw [Accepted,Accepted,promoted_fingerprint,Betrayed,Betrayed,ids]
  rfl

theorem vectors_of_store {self : SqliteBackend} {call : PortWrite} (kind : ∀ populating, call ≠ .promote_space populating) {s t : Db}
    (committed : Commits (call.run self) s () t) : s.facts.Ages Fact.SameVector t.facts := by
  have same : t.facts = s.facts → s.facts.Ages Fact.SameVector t.facts := fun same => same ▸ .refl Fact.SameVector.refl _
  by_cases ordinary : call.OnSpaces
  · cases call with
    | store_embedding_fingerprint fp =>
      have leaves : Leaves Tables.facts (EmbeddingSpaces.upsert_active_fingerprint fp) := EmbeddingSpaces.leaves_upsert_active_fingerprint (fun _ _ => rfl) fp
      exact same (leaves _ _ _ committed)
    | begin_populating_space name fingerprint =>
      have leaves : Leaves Tables.facts (EmbeddingSpaces.begin_populating ⟨name,fingerprint,.Populating⟩) :=
        EmbeddingSpaces.leaves_begin_populating (fun _ _ => rfl) _
      exact same (leaves _ _ _ committed)
    | write_backfill_batch space rows =>
      have leaves : Leaves Tables.facts (write_backfill_batch space rows) := leaves_write_backfill_batch (fun _ _ => rfl) space rows
      obtain ⟨_,_,written,last⟩ := commits_bind.mp committed
      obtain ⟨_,rfl⟩ := commits_pure.mp last
      exact same (leaves _ _ _ written)
    | promote_space populating => exact absurd rfl (kind populating)
    | deprecate_space name =>
      have leaves : Leaves Tables.facts (EmbeddingSpaces.deprecate_space name) := leaves_execute fun _ => rfl
      exact same (leaves _ _ _ committed)
    | _ => cases ordinary
  · exact (Tables.Writes.of_changes (PortWrite.makes self ordinary s () t committed)).facts

end snapshot

variable {host : SnapshotHost} {ctx : MemoryCtx}

theorem commits_hnsw_to_snapshot {embed_dim : Nat} {s t : Db} {entries : List HnswEntry} :
    Commits (hnsw_to_snapshot embed_dim) s entries t ↔ Lists embed_dim s.toTables entries ∧ t = s := by
  simp only [hnsw_to_snapshot,commits_bind,commits_query,commits_lift]
  constructor
  · rintro ⟨_,_,⟨rfl,rfl⟩,listed,rfl⟩
    exact ⟨listed,rfl⟩
  · rintro ⟨listed,rfl⟩
    exact ⟨_,_,⟨rfl,rfl⟩,listed,rfl⟩

theorem lists_of_snap {s t : Db} {hnsw : Option (List HnswEntry)} (committed : Commits (hnsw_snap host ctx) s hnsw t) :
    ∀ entries ∈ hnsw, Lists ctx.backend.embed_dim s.toTables entries := by
  unfold hnsw_snap at committed
  split at committed
  · obtain ⟨listed,_,read,last⟩ := commits_bind.mp committed
    obtain ⟨rfl,_⟩ := commits_pure.mp last
    rintro entries ⟨⟩
    exact (commits_hnsw_to_snapshot.mp read).1
  · obtain ⟨rfl,_⟩ := commits_pure.mp committed
    rintro entries ⟨⟩

theorem aside_storage {s t : State} {action : FlushRace.Action} (aside : Aside action) (step : FlushRace.Step host ctx s action t) :
    t.engine.storage = s.engine.storage := by
  cases step with
  | commit committed => exact aside.elim
  | store self call committed => exact aside.elim
  | fingerprint turn read => exact aside.elim
  | reopen opened => exact opened.storage
  | _ => rfl

/-- The stages that a step brings a flush to. -/
inductive Comes (host : SnapshotHost) (ctx : MemoryCtx) (s : State) : Action → Flush → Prop where
  | graph {graph : List GraphEdgeSnapshot} : Comes host ctx s .other (.graph graph)
  | projections {graph : List GraphEdgeSnapshot} {scope_tree : List ScopeNode} : Comes host ctx s .other (.projections graph scope_tree)
  | fingerprinted {graph : List GraphEdgeSnapshot} {scope_tree : List ScopeNode} : Comes host ctx s (.fingerprint graph scope_tree)
      (.fingerprinted (snapshot_header ctx s.engine.storage.toTables.fingerprint) graph scope_tree)
  | assembled {header : SnapshotHeader} {graph : List GraphEdgeSnapshot} {scope_tree : List ScopeNode} {hnsw : Option (List HnswEntry)}
      (here : .fingerprinted header graph scope_tree ∈ s.flushes)
      (listed : Commits (hnsw_snap host ctx) s.engine.storage hnsw s.engine.storage) :
      Comes host ctx s .other (.assembled header ⟨graph,scope_tree,hnsw⟩)

/-- A flush was under way before, or has just come to its stage. -/
theorem Step.flush {s t : State} {action : Action} (step : Step host ctx s action t) {flush : Flush} (member : flush ∈ t.flushes) :
    flush ∈ s.flushes ∨ Comes host ctx s action flush := by
  cases step with
  | commit committed => exact .inl member
  | store self call kind committed => exact .inl member
  | promote committed => exact .inl member
  | fingerprint turn read =>
    obtain ⟨rfl,_⟩ := commits_query.mp read
    rcases FlushRace.mem_stage turn member with old | rfl
    · exact .inl old
    · exact .inr .fingerprinted
  | other step aside =>
    cases step with
    | commit committed => exact aside.elim
    | store self call committed => exact aside.elim
    | fingerprint turn read => exact aside.elim
    | copy_graph =>
      rcases List.mem_cons.mp member with rfl | old
      · exact .inr .graph
      · exact .inl old
    | copy_scopes turn =>
      rcases FlushRace.mem_stage turn member with old | rfl
      · exact .inl old
      · exact .inr .projections
    | assemble turn listed =>
      rcases FlushRace.mem_stage turn member with old | rfl
      · exact .inl old
      · exact .inr (.assembled (FlushRace.mem_turn turn) listed)
    | write turn written => exact .inl (FlushRace.mem_fewer turn member)
    | abandon turn => exact .inl (FlushRace.mem_fewer turn member)
    | reopen opened => cases member
    | _ => exact .inl member

/-- The file stays, or is what a flush has assembled. -/
theorem Step.sidecar {s t : State} {action : Action} (step : Step host ctx s action t) : t.sidecar = s.sidecar ∨
    ∃ header payload data, .assembled header payload ∈ s.flushes ∧ write_to_file host.lib header payload = .ok data ∧ t.sidecar = .file data := by
  cases step with
  | other step aside =>
    cases step with
    | write turn written => exact .inr ⟨_,_,_,FlushRace.mem_turn turn,written,rfl⟩
    | _ => exact .inl rfl
  | _ => exact .inl rfl

theorem Step.held (headers : host.lib.header.RoundTrips) (payloads : host.lib.payload.RoundTrips) {s t : State} {action : Action}
    (step : Step host ctx s action t) {header : SnapshotHeader} {payload : SnapshotPayload} (held : Held host t header payload) :
    Held host s header payload ∨ ∃ flush, Comes host ctx s action flush ∧ drafted flush = some (header,payload) := by
  rcases held with ⟨flush,member,snapshot⟩ | ⟨embed_dim,loaded⟩
  · rcases step.flush member with old | new
    · exact .inl (.inl ⟨flush,old,snapshot⟩)
    · exact .inr ⟨flush,new,snapshot⟩
  · rcases step.sidecar with same | ⟨header',payload',data,there,written,filed⟩
    · exact .inl (.inr ⟨embed_dim,same ▸ loaded⟩)
    · rw [filed] at loaded
      obtain ⟨rfl,rfl⟩ := loaded_of_written headers payloads written loaded
      exact .inl (.inl ⟨_,there,rfl⟩)

theorem Step.ages {s t : State} {action : Action} (step : Step host ctx s action t) :
    s.engine.storage.toTables.Ages t.engine.storage.toTables := by
  cases step with
  | commit committed =>
    obtain ⟨write,_,written⟩ := FlushRace.commit_writes committed
    exact PortWrite.ages _ written
  | store self call kind committed => exact PortWrite.ages self committed
  | promote committed => exact promote_space_ages committed
  | fingerprint turn read => exact .refl _
  | other step aside => exact .same (by rw [aside_storage aside step]) (by rw [aside_storage aside step]) (by rw [aside_storage aside step])

/-- What holds of the snapshots in any run in which the fingerprints are read in time. -/
structure Kept (host : SnapshotHost) (ctx : MemoryCtx) (s : State) : Prop where
  snapshots : ∀ header payload, Held host s header payload → Sealed header payload s.engine.storage.toTables
  widths : ∀ header graph scope_tree, .fingerprinted header graph scope_tree ∈ s.flushes → header.embed_dim = ctx.backend.embed_dim

theorem kept_step (headers : host.lib.header.RoundTrips) (payloads : host.lib.payload.RoundTrips) {s t : State} {action : Action}
    (kept : Kept host ctx s) (timely : Timely host s action) (step : Step host ctx s action t) : Kept host ctx t where
  snapshots := by
    intro header payload held
    rcases step.held headers payloads held with old | ⟨flush,comes,snapshot⟩
    · exact (kept.snapshots header payload old).ages step.ages
    · cases comes with
      | graph => cases snapshot
      | projections => cases snapshot
      | fingerprinted =>
        cases snapshot
        exact ⟨_,step.ages,rfl,timely,nofun⟩
      | assembled here listed =>
        cases snapshot
        obtain ⟨first,ages,same,sound,_⟩ := kept.snapshots _ _ (.inl ⟨_,here,rfl⟩)
        refine ⟨first,ages.trans step.ages,same,sound,fun entries member => ⟨_,ages,step.ages,?_⟩⟩
        rw [kept.widths _ _ _ here]
        exact lists_of_snap listed entries member
  widths := by
    intro header graph scope_tree member
    rcases step.flush member with old | new
    · exact kept.widths header graph scope_tree old
    · cases new
      rfl

/-- A snapshot that has just come to its stage is as a rebuild. -/
theorem mirrors_of_comes {s : State} {action : Action} (kept : Kept host ctx s) (faithful : Faithful host s) (timely : Timely host s action)
    {flush : Flush} (comes : Comes host ctx s action flush) {header : SnapshotHeader} {payload : SnapshotPayload}
    (snapshot : drafted flush = some (header,payload)) (accepted : Accepted header payload s.engine.storage.toTables) :
    Mirrors header payload s.engine.storage.toTables := by
  cases comes with
  | graph => cases snapshot
  | projections => cases snapshot
  | fingerprinted =>
    cases snapshot
    exact ⟨timely.resolve_left accepted.2,nofun⟩
  | assembled here listed =>
    cases snapshot
    refine ⟨(faithful _ _ (.inl ⟨_,here,rfl⟩) accepted).caught,?_⟩
    rw [kept.widths _ _ _ here]
    exact lists_of_snap listed

theorem faithful_commit {s : State} {db : Db} (kept : Kept host ctx s) (ages : s.engine.storage.toTables.Ages db.toTables)
    (vectors : s.engine.storage.facts.Ages Fact.SameVector db.facts) : Faithful host (s.stored db) ↔ Timely host s (.commit db.toTables) := by
  refine forall₃_congr fun header payload held => forall_congr' fun accepted => ?_
  exact (kept.snapshots header payload held).mirrors_commit ages vectors accepted

theorem faithful_promote {s : State} {db : Db} {populating : String} {outcome : PromoteOutcome} (kept : Kept host ctx s)
    (committed : Commits (promote_space populating) s.engine.storage outcome db) :
    Faithful host (s.stored db) ↔ Timely host s (.promote populating) := by
  obtain ⟨active,new,_,_,_,_,written,_⟩ := commits_promote_space committed
  refine forall₃_congr fun header payload held => ?_
  have later := (kept.snapshots header payload held).ages (promote_space_ages committed)
  change Accepted header payload db.toTables → Mirrors header payload db.toTables ↔ _
  rw [written,accepted_promoted,← promoted_activeFacts]
  rw [written] at later
  exact forall_congr' fun accepted => later.mirrors_iff (accepted_promoted.mpr accepted)

/-- After one more step no snapshot would be accepted that differs from a rebuild, if and only
    if the step was timely. -/
theorem faithful_step (headers : host.lib.header.RoundTrips) (payloads : host.lib.payload.RoundTrips) {s t : State} {action : Action}
    (kept : Kept host ctx s) (faithful : Faithful host s) (step : Step host ctx s action t) : Faithful host t ↔ Timely host s action := by
  -- a step that leaves the database alone
  have still : t.engine.storage = s.engine.storage → Timely host s action → Faithful host t := by
    intro same timely header payload held accepted
    rw [same] at accepted ⊢
    rcases step.held headers payloads held with old | ⟨flush,comes,snapshot⟩
    · exact faithful header payload old accepted
    · exact mirrors_of_comes kept faithful timely comes snapshot accepted
  cases step with
  | commit committed =>
    obtain ⟨write,ordinary,written⟩ := FlushRace.commit_writes committed
    refine faithful_commit kept (PortWrite.ages _ written) (vectors_of_store (fun populating same => ?_) written)
    rw [same] at ordinary
    exact ordinary trivial
  | store self call kind committed => exact faithful_commit kept (PortWrite.ages self committed) (vectors_of_store kind committed)
  | promote committed => exact faithful_promote kept committed
  | @fingerprint front rest graph scope_tree fingerprint turn read =>
    refine ⟨fun holds => ?_,still rfl⟩
    obtain ⟨rfl,_⟩ := commits_query.mp read
    by_cases betrayed : Betrayed graph s.engine.storage.toTables
    · exact .inl betrayed
    · exact .inr (holds _ ⟨graph,scope_tree,none⟩ (.inl ⟨_,List.mem_append_right _ List.mem_cons_self,rfl⟩) ⟨rfl,betrayed⟩).caught
  | other step aside => exact ⟨fun _ => trivial,still (aside_storage aside step)⟩

theorem Run.kept (headers : host.lib.header.RoundTrips) (payloads : host.lib.payload.RoundTrips) {s t : State}
    (run : Run host ctx (Timely host) s t) (kept : Kept host ctx s) (faithful : Faithful host s) : Kept host ctx t ∧ Faithful host t := by
  induction run with
  | refl => exact ⟨kept,faithful⟩
  | step before step may ih => exact ⟨kept_step headers payloads ih.1 may step,(faithful_step headers payloads ih.1 ih.2 step).mpr may⟩

/-- The edges, the scope nodes and the vectors that a rebuild from the database gives. -/
structure AsRebuilt (embed_dim : Nat) (graph : MemoryGraph) (scope_tree : ScopeTree) (hnsw : Option (List HnswEntry)) (db : Db) : Prop where
  edges : graph.view = db.activeEdges
  nodes : scope_tree.nodes.Perm db.scopes.rows
  vectors : ∀ entries ∈ hnsw, Commits (hnsw_to_snapshot embed_dim) db entries db

theorem full_rebuild_as_rebuilt {db db' : Db} {rebuilt : Engine} {embed_dim : Nat} {entries : List HnswEntry}
    (opened : Commits full_rebuild db rebuilt db') (listed : Commits (hnsw_to_snapshot embed_dim) db entries db) :
    AsRebuilt embed_dim rebuilt.graph rebuilt.scope_tree (some entries) db := by
  rw [commits_full_rebuild opened]
  refine ⟨MemoryGraph.view_from_active_edges _,?_,?_⟩
  · rw [ScopeTree.nodes_from_nodes db.scopes.keys_nodup]
  · rintro _ ⟨⟩
    exact listed

/-- An accepted file gives what a rebuild gives, where no snapshot would be accepted that
    differs from one. -/
theorem opened_of_faithful {s : State} (faithful : Faithful host s) {embed_dim : Nat} {graph : MemoryGraph} {scope_tree : ScopeTree}
    {hnsw : Option (List HnswEntry)} (opened : try_load_snapshot host s.sidecar embed_dim s.engine.storage.toTables = some (some (graph,scope_tree,hnsw))) :
    AsRebuilt embed_dim graph scope_tree hnsw s.engine.storage := by
  obtain ⟨_,header,payload,loaded,same,passes,edges,rfl,rfl⟩ := loads_iff.mp ⟨graph,opened,rfl⟩
  have mirrors := faithful header payload (.inr ⟨embed_dim,loaded⟩) ⟨same,passes⟩
  refine ⟨edges.symm.trans mirrors.caught.1,mirrors.caught.2,fun entries member => ?_⟩
  rw [← width_of_loaded loaded]
  exact commits_hnsw_to_snapshot.mpr ⟨mirrors.vectors entries member,rfl⟩

theorem kept_start {s : State} (idle : s.flushes = []) (missing : s.sidecar = .missing) : Kept host ctx s ∧ Faithful host s := by
  have none_ : ∀ header payload, ¬ Held host s header payload := by
    rintro header payload (⟨flush,member,_⟩ | ⟨embed_dim,loaded⟩)
    · rw [idle] at member
      cases member
    · rw [missing] at loaded
      cases loaded
  refine ⟨⟨fun header payload held => absurd held (none_ header payload),fun header graph scope_tree member => ?_⟩,?_⟩
  · rw [idle] at member
    cases member
  · exact fun header payload held => absurd held (none_ header payload)

/-- In every interleaving of timely steps, an accepted file gives the edges, the scope nodes and
    the vectors of a rebuild; and one more step keeps this for all snapshots, if and only
    if it is timely again. -/
theorem opened_as_rebuilt_iff_timely (headers : host.lib.header.RoundTrips) (payloads : host.lib.payload.RoundTrips) {s t u : State} {action : Action}
    (idle : s.flushes = []) (missing : s.sidecar = .missing) (run : Run host ctx (Timely host) s t) (step : Step host ctx t action u) :
    (∀ embed_dim graph scope_tree hnsw, try_load_snapshot host t.sidecar embed_dim t.engine.storage.toTables = some (some (graph,scope_tree,hnsw)) →
        AsRebuilt embed_dim graph scope_tree hnsw t.engine.storage) ∧ (Faithful host u ↔ Timely host t action) := by
  have start_ : Kept host ctx s ∧ Faithful host s := kept_start idle missing
  obtain ⟨kept,faithful⟩ := run.kept headers payloads start_.1 start_.2
  exact ⟨fun _ _ _ _ => opened_of_faithful faithful,faithful_step headers payloads kept faithful step⟩

theorem Run.mono {allowed allowed' : State → Action → Prop} (less : ∀ s action, allowed s action → allowed' s action) {s t : State}
    (run : Run host ctx allowed s t) : Run host ctx allowed' s t := by
  induction run with
  | refl => exact .refl
  | step before step may ih => exact ih.step step (less _ _ may)

/-- The steps of a flush that nothing interrupts, in an engine whose graph and scope tree are
    up to date. -/
theorem Run.flushed {s : Engine} {first : State} {tasks : List Task} {flushes : List Flush} {sidecar : Sidecar} {hnsw : Option (List HnswEntry)}
    {data : List UInt8} (before : Run host ctx (Timely host) first ⟨s,tasks,flushes,sidecar⟩)
    (caught : Caught s.graph.to_snapshot s.scope_tree.to_snapshot s.storage.toTables) (listed : Commits (hnsw_snap host ctx) s.storage hnsw s.storage)
    (written : write_to_file host.lib (snapshot_header ctx s.storage.toTables.fingerprint) ⟨s.graph.to_snapshot,s.scope_tree.to_snapshot,hnsw⟩ = .ok data) :
    Run host ctx (Timely host) first ⟨s,tasks,flushes,.file data⟩ := by
  have copy_graph : Step host ctx ⟨s,tasks,flushes,sidecar⟩ .other ⟨s,tasks,.graph s.graph.to_snapshot :: flushes,sidecar⟩ :=
    .other .copy_graph trivial
  have copy_scopes : Step host ctx ⟨s,tasks,.graph s.graph.to_snapshot :: flushes,sidecar⟩ .other
      ⟨s,tasks,.projections s.graph.to_snapshot s.scope_tree.to_snapshot :: flushes,sidecar⟩ :=
    .other (@FlushRace.Step.copy_scopes _ _ _ [] _ _ rfl) trivial
  have fingerprint : Step host ctx ⟨s,tasks,.projections s.graph.to_snapshot s.scope_tree.to_snapshot :: flushes,sidecar⟩
      (.fingerprint s.graph.to_snapshot s.scope_tree.to_snapshot) ⟨s,tasks,.fingerprinted (snapshot_header ctx s.storage.toTables.fingerprint)
        s.graph.to_snapshot s.scope_tree.to_snapshot :: flushes,sidecar⟩ := @Step.fingerprint _ _ _ [] _ _ _ _ rfl (commits_query.mpr ⟨rfl,rfl⟩)
  have assemble : Step host ctx ⟨s,tasks,.fingerprinted (snapshot_header ctx s.storage.toTables.fingerprint) s.graph.to_snapshot
      s.scope_tree.to_snapshot :: flushes,sidecar⟩ .other ⟨s,tasks,.assembled (snapshot_header ctx s.storage.toTables.fingerprint)
        ⟨s.graph.to_snapshot,s.scope_tree.to_snapshot,hnsw⟩ :: flushes,sidecar⟩ :=
    .other (@FlushRace.Step.assemble _ _ _ [] _ _ _ _ _ rfl listed) trivial
  have write : Step host ctx ⟨s,tasks,.assembled (snapshot_header ctx s.storage.toTables.fingerprint)
      ⟨s.graph.to_snapshot,s.scope_tree.to_snapshot,hnsw⟩ :: flushes,sidecar⟩ .other ⟨s,tasks,flushes,.file data⟩ :=
    .other (@FlushRace.Step.write _ _ _ [] _ _ _ _ rfl written) trivial
  have copied := (before.step copy_graph trivial).step copy_scopes trivial
  exact ((copied.step fingerprint (.inr caught)).step assemble trivial).step write trivial

/-- A flush that writes is a run of timely steps. -/
theorem run_flush_snapshot {s t : Engine} {data : List UInt8} (committed : Commits (flush_snapshot host ctx) s (some data) t)
    (caught : Caught s.graph.to_snapshot s.scope_tree.to_snapshot s.storage.toTables) (tasks : List Task) (flushes : List Flush) (sidecar : Sidecar) :
    Run host ctx (Timely host) ⟨s,tasks,flushes,sidecar⟩ ⟨t,tasks,flushes,.file data⟩ := by
  obtain ⟨rfl,hnsw,listed,written⟩ := commits_flush_snapshot committed
  exact Run.refl.flushed caught listed written

/-- A reconstruction is a run of steps, the last of them a promotion. -/
theorem Run.reconstructed {new_fingerprint : EmbeddingFingerprint} {embedder : EmbeddingProvider} {outcome : PromoteOutcome} {e e' : Engine}
    (committed : Commits (reconstruct ctx new_fingerprint embedder) e outcome e') {first s : State} (same : s.engine.storage = e.storage)
    (before : Run host ctx (fun _ _ => True) first s) : Run host ctx (fun _ _ => True) first (s.stored e'.storage) := by
  obtain ⟨m,m',promoted,begun,filled,swapped,_⟩ := Reconstruct.commits_reconstruct committed
  rw [← same] at begun
  have opened : Run host ctx (fun _ _ => True) first (s.stored m) :=
    before.step (.store ctx.backend (.begin_populating_space _ _) (fun _ => nofun) begun) trivial
  have backfilled : Run host ctx (fun _ _ => True) first (s.stored m') := by
    clear swapped
    induction filled with
    | start => exact opened
    | batch _ _ written ih =>
      exact ih.step (.store (s := s.stored _) ctx.backend (.write_backfill_batch _ _) (fun _ => nofun) (commits_void written)) trivial
  exact backfilled.step (.promote (s := s.stored m') swapped) trivial

end CrashReopen

namespace Sample

def crashHeader : SnapshotHeader := ⟨FORMAT_VERSION,⟨3,3,1,1,1,1⟩,1,ENGINE_VERSION⟩

def crashEntries : List HnswEntry := [⟨1,[0x3F000000]⟩,⟨2,[0x3F000000]⟩,⟨3,[0x3F000000]⟩]

def crashPayload : SnapshotPayload := ⟨engine.graph.to_snapshot,engine.scope_tree.to_snapshot,some crashEntries⟩

def crashHeaderBytes : List UInt8 :=
  [0x84] ++ fixstr "format_version" ++ [2] ++ fixstr "fingerprint" ++ [0x86] ++ fixstr "max_fact_id" ++ [3] ++
    fixstr "active_fact_count" ++ [3] ++ fixstr "max_edge_id" ++ [1] ++ fixstr "active_edge_count" ++ [1] ++
    fixstr "max_scope_id" ++ [1] ++ fixstr "scope_count" ++ [1] ++ fixstr "embed_dim" ++ [1] ++ fixstr "engine_version" ++ fixstr "0.1.0"

def entryBytes (id : UInt8) : List UInt8 := [0x82] ++ fixstr "fact_id" ++ [id] ++ fixstr "embedding" ++ [0x91,0xCA,0x3F,0,0,0]

/-- The payload without an index ends in a nil. -/
def crashPayloadBytes : List UInt8 :=
  flushPayloadBytes.dropLast ++ [0x81] ++ fixstr "entries" ++ [0x93] ++ entryBytes 1 ++ entryBytes 2 ++ entryBytes 3

/-- A process with an index of vectors. -/
def crashHost : SnapshotHost where
  lib := {
    header := codecAt crashHeader crashHeaderBytes
    payload := codecAt crashPayload crashPayloadBytes
    blake3 _ := #v[164,34,80,37,236,181,170,18,152,76,169,210,90,175,122,181,165,6,66,66,245,213,49,181,90,101,19,91,244,193,178,84] }
  file_backed := true
  ann := true

/-- The store with the identity of its vectors. -/
def crashIdentity : PortWrite := .record_embedding_fingerprint_if_absent ⟨"a","p",1,none,"f32"⟩ 1

end Sample

namespace CrashReopen
open FlushRace (State)
open Reconstruct.Sample (target embedder)

theorem crash_headers : Sample.crashHost.lib.header.RoundTrips := Sample.codecAt_roundTrips _ (List.cons_ne_nil _ _)

theorem crash_payloads : Sample.crashHost.lib.payload.RoundTrips :=
  Sample.codecAt_roundTrips _ (by
    have short : Sample.crashPayloadBytes.length = 228 := by decide +kernel
    exact List.ne_nil_of_length_pos (by rw [short]; decide))

theorem crash_written : ∃ data, write_to_file Sample.crashHost.lib Sample.crashHeader Sample.crashPayload = .ok data ∧
    load_from_file Sample.crashHost.lib (.file data) Sample.crashHeader.embed_dim = some (some (Sample.crashHeader,Sample.crashPayload)) := by
  have short : Sample.crashHeaderBytes.length = 153 := by decide +kernel
  have small : Sample.crashPayloadBytes.length = 228 := by decide +kernel
  have first : Sample.crashHost.lib.header.to_vec_named Sample.crashHeader = .ok Sample.crashHeaderBytes := by
    simp [Sample.crashHost,Sample.codecAt]
  have second : Sample.crashHost.lib.payload.to_vec_named Sample.crashPayload = .ok Sample.crashPayloadBytes := by
    simp [Sample.crashHost,Sample.codecAt]
  have written := write_to_file_ok first second (by rw [short]; decide)
  have sized : Sized Sample.crashPayload Sample.crashHeader.embed_dim := by
    rintro entries ⟨⟩
    decide
  have loaded := load_written crash_headers crash_payloads rfl sized written
  refine ⟨_,written,loaded ?_⟩
  rw [List.length_append,List.length_append,List.length_append,length_leBytes,short,small,Vector.length_toList]
  decide

/-- An engine with three facts is flushed; and a reconstruction to another identity of its
    dimension would rewrite the vectors and nothing that an opening checks. -/
theorem crash_flushed : ∃ db data, Run Sample.crashHost Sample.ctx (Timely Sample.crashHost) ⟨Sample.engine,[],[],.missing⟩
      ⟨{ Sample.engine with storage := db },[],[],.file data⟩ ∧
    load_from_file Sample.crashHost.lib (.file data) Sample.crashHeader.embed_dim = some (some (Sample.crashHeader,Sample.crashPayload)) ∧
    ∃ outcome e', Commits (reconstruct Sample.ctx target (embedder target)) { Sample.engine with storage := db } outcome e' ∧
      e'.storage.toTables.fingerprint = Sample.crashHeader.fingerprint ∧ e'.storage.facts.rows.map Fact.id = [1,2,3] ∧
      e'.storage.activeFacts.map entry ≠ Sample.crashEntries := by
  have ran : Ends (Sample.crashIdentity.run Sample.backend) Sample.engine.storage (fun _ db =>
      decide (db.toTables.fingerprint = Sample.crashHeader.fingerprint ∧ db.activeFacts.map entry = Sample.crashEntries ∧
        (∀ f ∈ db.activeFacts, f.embedding.length = 1) ∧ (Sample.engine.graph.to_snapshot : Multiset GraphEdgeSnapshot) = db.activeEdges ∧
        (ScopeTree.from_snapshot Sample.engine.scope_tree.to_snapshot).nodes = db.scopes.rows) &&
      Ends (reconstruct Sample.ctx target (embedder target)) { Sample.engine with storage := db } (fun _ e' =>
        decide (e'.storage.toTables.fingerprint = Sample.crashHeader.fingerprint ∧ e'.storage.facts.rows.map Fact.id = [1,2,3] ∧
          e'.storage.activeFacts.map entry ≠ Sample.crashEntries))) = true := by
    decide +kernel
  obtain ⟨_,db,committed,ran⟩ := commits_of_ends ran
  obtain ⟨before,ran⟩ := Bool.and_eq_true_iff.mp ran
  obtain ⟨current,listing,sized,edges,nodes⟩ := of_decide_eq_true before
  obtain ⟨outcome,e',rebuilt,after⟩ := commits_of_ends ran
  obtain ⟨data,written,loaded⟩ := crash_written
  refine ⟨db,data,?_,loaded,outcome,e',rebuilt,of_decide_eq_true after⟩
  have none_ : ∀ header payload, ¬ Held Sample.crashHost ⟨Sample.engine,[],[],.missing⟩ header payload := by
    rintro header payload (⟨flush,member,_⟩ | ⟨embed_dim,found⟩)
    · cases member
    · cases found
  have stamped : Run Sample.crashHost Sample.ctx (Timely Sample.crashHost) ⟨Sample.engine,[],[],.missing⟩
      ⟨{ Sample.engine with storage := db },[],[],.missing⟩ :=
    Run.refl.step (.store Sample.backend Sample.crashIdentity (fun _ => nofun) committed) fun header payload held => absurd held (none_ header payload)
  have listed : Commits (hnsw_snap Sample.crashHost Sample.ctx) db (some Sample.crashEntries) db :=
    commits_bind.mpr ⟨_,_,commits_hnsw_to_snapshot.mpr ⟨lists_iff.mpr ⟨sized,listing.symm⟩,rfl⟩,commits_pure.mpr ⟨rfl,rfl⟩⟩
  refine stamped.flushed ⟨edges,?_⟩ listed ?_
  · rw [nodes]
  · have header : snapshot_header Sample.ctx db.toTables.fingerprint = Sample.crashHeader := by
      rw [current]
      rfl
    exact header ▸ written

/-- After a flush comes the first step of another. -/
theorem opened_as_rebuilt_iff_timely_sample : ∃ t u action, Step Sample.crashHost Sample.ctx t action u ∧
    (∀ embed_dim graph scope_tree hnsw, try_load_snapshot Sample.crashHost t.sidecar embed_dim t.engine.storage.toTables =
      some (some (graph,scope_tree,hnsw)) → AsRebuilt embed_dim graph scope_tree hnsw t.engine.storage) ∧
    (Faithful Sample.crashHost u ↔ Timely Sample.crashHost t action) := by
  obtain ⟨db,data,run,_⟩ := crash_flushed
  have step : Step Sample.crashHost Sample.ctx ⟨{ Sample.engine with storage := db },[],[],.file data⟩ .other
      ⟨{ Sample.engine with storage := db },[],[.graph Sample.engine.graph.to_snapshot],.file data⟩ := .other .copy_graph trivial
  exact ⟨_,_,_,step,opened_as_rebuilt_iff_timely crash_headers crash_payloads rfl rfl run step⟩

/-- A flush, a reconstruction and a crash: the file is accepted, and its vectors are those from
    before the reconstruction. -/
theorem old_vectors_survive : ¬ ∀ (host : SnapshotHost) (ctx : MemoryCtx) (s t : State), host.lib.header.RoundTrips → host.lib.payload.RoundTrips →
    Caught s.engine.graph.to_snapshot s.engine.scope_tree.to_snapshot s.engine.storage.toTables → s.tasks = [] → s.flushes = [] →
      s.sidecar = .missing → Run host ctx (fun _ _ => True) s t → ∀ embed_dim graph scope_tree hnsw,
      try_load_snapshot host t.sidecar embed_dim t.engine.storage.toTables = some (some (graph,scope_tree,hnsw)) →
        AsRebuilt embed_dim graph scope_tree hnsw t.engine.storage := by
  intro claim
  obtain ⟨db,data,flushed,loaded,outcome,e',rebuilt,current,ids,differ⟩ := crash_flushed
  have before : Run Sample.crashHost Sample.ctx (fun _ _ => True) ⟨Sample.engine,[],[],.missing⟩
      ⟨{ Sample.engine with storage := db },[],[],.file data⟩ := flushed.mono fun _ _ _ => trivial
  have caught : Caught Sample.engine.graph.to_snapshot Sample.engine.scope_tree.to_snapshot Sample.engine.storage.toTables := by
    unfold Caught
    decide +kernel
  have passes : ¬ Betrayed Sample.crashPayload.graph e'.storage.toTables :=
    FlushRace.flush_passes (congrArg DbFingerprint.active_edge_count current) (by rw [ids]; decide)
  obtain ⟨graph,opened,_⟩ := loads_iff.mpr ⟨rfl,_,_,loaded,current.symm,passes,rfl,rfl,rfl⟩
  have same := claim _ _ _ _ crash_headers crash_payloads caught rfl rfl rfl (before.reconstructed rebuilt rfl) _ graph _ _ opened
  have listed := (commits_hnsw_to_snapshot.mp (same.vectors Sample.crashEntries rfl)).1
  exact differ (lists_iff.mp listed).2.symm

end CrashReopen
end MemoryEngine
