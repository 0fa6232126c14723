import MemoryEngine.Arrivals
import MemoryEngine.BootstrapPrepare

/-! Imports of sessions side by side. A call resolves its scope, looks for the marker of
its session, prepares the facts and hands them to one transaction; between any two of
these steps other calls may take theirs. -/

namespace MemoryEngine.Importer
open Time KeyedTable Transaction Traces Traced Bootstrap FactStore

/-! ## Batches -/

/-- The first active row of the content and the scope of a fact. -/
def held (self : SqliteBackend) (fact : NewFact) (facts : Table Fact) : Option FactId :=
  (facts.rows.find? fun f => f.content_hash == self.content_hash fact.content && f.content == fact.content &&
    f.scope_id == fact.scope_id && f.t_expired.isNone).map Fact.id

/-- A fact that is held is reinforced and any other becomes a row. -/
def storeFact (self : SqliteBackend) (facts : Table Fact) (fact : NewFact) : Table Fact :=
  match fact.base_importance with
  | .nan => facts
  | .num importance =>
    match held self fact facts with
    | some id => facts.update (fun f => f.id == id) (reinforced fact importance) (reinforced_id fact importance)
    | none => facts.insert (newRow self fact importance) (newRow_key self fact importance)

/-- A batch is applied in order, each fact linked to the marker. -/
def storeBatch (self : SqliteBackend) (marker_id : Int) (facts : Table Fact) (batch : List NewFact) : Table Fact :=
  batch.foldl (fun facts fact => storeFact self facts (linked (some marker_id) fact)) facts

section batches
variable {self : SqliteBackend}

/-- Nothing but the table of facts is written. -/
theorem commits_insert_or_reinforce {fact : NewFact} {s t : Db} {flag : FactId × Bool} (committed : Commits (insert_or_reinforce self fact) s flag t) :
    t.toTables = { s.toTables with facts := storeFact self s.facts fact } := by
  obtain ⟨_,_,sized,looking⟩ := commits_bind.mp committed
  obtain ⟨_,rfl⟩ := commits_require.mp sized
  obtain ⟨found,_,looked,rest⟩ := commits_bind.mp looking
  obtain ⟨same,rfl⟩ := commits_query.mp looked
  have same : found = held self fact _ := same
  unfold storeFact
  rw [← same]
  cases found with
  | some id =>
    obtain ⟨_,m,stored,last⟩ := commits_bind.mp rest
    obtain ⟨_,rfl⟩ := commits_pure.mp last
    unfold reinforce at stored
    cases given : fact.base_importance with
    | nan =>
      rw [given] at stored
      exact absurd stored commits_throw
    | num importance =>
      rw [given] at stored
      exact commits_execute.mp stored
  | none =>
    obtain ⟨id,m,inserted,last⟩ := commits_bind.mp rest
    obtain ⟨_,rfl⟩ := commits_pure.mp last
    obtain ⟨_,importance,given,_,written⟩ := commits_insert.mp inserted
    rw [given]
    exact written

theorem commits_ingestFacts {marker_id : Option Int} {batch : List NewFact} {out out' : List (FactId × Bool)} {s t : Db}
    (committed : Commits (batch.foldlM (fun out fact => do
      let flag ← insert_or_reinforce self (linked marker_id fact)
      return out ++ [flag]) out) s out' t) :
    t.toTables = { s.toTables with facts := batch.foldl (fun facts fact => storeFact self facts (linked marker_id fact)) s.facts } ∧
      out'.length = out.length + batch.length := by
  induction batch generalizing out s with
  | nil =>
    obtain ⟨rfl,rfl⟩ := commits_pure.mp committed
    exact ⟨rfl,rfl⟩
  | cons fact rest ih =>
    rw [List.foldlM_cons] at committed
    obtain ⟨next,m,first,tail⟩ := commits_bind.mp committed
    obtain ⟨flag,m',stored,last⟩ := commits_bind.mp first
    obtain ⟨rfl,rfl⟩ := commits_pure.mp last
    obtain ⟨tables,counted⟩ := ih tail
    refine ⟨?_,?_⟩
    · rw [tables,commits_insert_or_reinforce stored]
      rfl
    · rw [counted,List.length_append,List.length_singleton,List.length_cons,Nat.add_assoc,Nat.add_comm 1]

/-- A batch that is ingested with its marker. -/
structure Ingests (backend : SqliteBackend) (marker : NewEvent) (batch : List NewFact) (s t : Tables) (flags : List (FactId × Bool)) : Prop where
  events : t.events = s.events.insert (EventStore.newRow backend marker) (EventStore.newRow_key backend marker)
  facts : t.facts = storeBatch backend s.events.nextId s.facts batch
  flags : flags.length = batch.length

theorem commits_ingestMarked {marker : NewEvent} {batch : List NewFact} {fingerprint : EmbeddingFingerprint} {expected_dim : Nat} {s t : Db}
    {outcome : BootstrapIngestOutcome} (committed : Commits (ingestMarked self (some marker) batch fingerprint expected_dim) s outcome t) :
    ∃ flags, outcome = .Ingested flags ∧ Ingests self marker batch s.toTables t.toTables flags := by
  obtain ⟨marker_id,m₁,marked,ingesting⟩ := commits_bind.mp committed
  obtain ⟨out,m₂,ingested,stamping⟩ := commits_bind.mp ingesting
  obtain ⟨_,m₃,stamped,last⟩ := commits_bind.mp stamping
  obtain ⟨rfl,rfl⟩ := commits_pure.mp last
  obtain ⟨id,m,inserted,last⟩ := commits_bind.mp marked
  obtain ⟨rfl,rfl⟩ := commits_pure.mp last
  obtain ⟨_,_,asked,writing⟩ := commits_bind.mp inserted
  obtain ⟨rfl,rfl⟩ := commits_query.mp asked
  obtain ⟨_,_,written,last⟩ := commits_bind.mp writing
  obtain ⟨rfl,rfl⟩ := commits_pure.mp last
  have written := commits_execute.mp written
  obtain ⟨filled,counted⟩ := commits_ingestFacts ingested
  have stamp : (t.events,t.facts) = (m₂.events,m₂.facts) := by
    rcases commits_guarded.mp stamped with ⟨_,recorded⟩ | ⟨_,rfl⟩
    · have leaves : Leaves (fun t => (t.events,t.facts)) (EmbeddingMeta.record_if_absent fingerprint expected_dim) :=
        EmbeddingMeta.leaves_record_if_absent _ (fun _ _ => rfl) _ _
      exact leaves_bind leaves (fun _ => leaves_pure _) _ _ _ recorded
    · rfl
  obtain ⟨events,facts⟩ := Prod.mk.inj stamp
  refine ⟨out,rfl,⟨?_,?_,?_⟩⟩
  · rw [events,filled,written]
  · rw [facts,filled,written]
    rfl
  · rw [counted,List.length_nil,Nat.zero_add]

theorem commits_count {filter : EventFilter} {s t : Db} {n : Nat} (committed : Commits (EventStore.count filter) s n t) :
    n = s.events.rows.countP filter.admits ∧ t = s := by
  obtain ⟨_,_,checked,queried⟩ := commits_bind.mp committed
  obtain ⟨_,rfl⟩ := commits_require.mp checked
  exact commits_query.mp queried

/-- The guard and the batch are one transaction. -/
theorem commits_ingest {marker : NewEvent} {filter : EventFilter} {batch : List NewFact} {fingerprint : EmbeddingFingerprint} {expected_dim : Nat}
    {s t : Db} {outcome : BootstrapIngestOutcome}
    (committed : Commits (ingest_bootstrap_batch_atomic self (some marker) (some filter) batch fingerprint expected_dim) s outcome t) :
    outcome = .Skipped ∧ t = s ∨ s.events.rows.countP filter.admits = 0 ∧
      ∃ flags, outcome = .Ingested flags ∧ Ingests self marker batch s.toTables t.toTables flags := by
  obtain ⟨present,m,counted,rest⟩ := commits_bind.mp committed
  obtain ⟨rfl,rfl⟩ := commits_count counted
  by_cases present : 0 < m.events.rows.countP filter.admits
  · rw [if_pos present] at rest
    obtain ⟨rfl,rfl⟩ := commits_pure.mp rest
    exact .inl ⟨rfl,rfl⟩
  · rw [if_neg present] at rest
    exact .inr ⟨Nat.eq_zero_of_not_pos present,commits_ingestMarked rest⟩

end batches

/-! ## Calls -/

/-- A call of `bootstrap_session`, with the log parsed. -/
structure ImportCall where
  ctx : MemoryCtx
  scope : Option String
  skip_existing : Bool
  config : BootstrapConfig
  libraries : PrepareLibraries
  callbacks : Callbacks
  fingerprint : EmbeddingFingerprint
  parsed : ParsedSession

/-- The root without a path. -/
def resolve_bootstrap_scope : Option String → Sql Int
  | some path => ScopeStore.ensure_path path
  | none => return 1

namespace ImportCall
variable (call : ImportCall)

def skip_filter : Option EventFilter := if call.skip_existing then some (bootstrap_marker_filter call.parsed.session_id) else none

def prepareCtx (scope_id : Int) : PrepareCtx := ⟨call.libraries,call.callbacks,call.config,scope_id⟩

/-- The marker of the session is among the events. -/
def early_out : Sql Bool :=
  match call.skip_filter with
  | some filter => do return (← EventStore.count filter) > 0
  | none => return false

/-- What the call may hand to the ingest. The consumer remembers earlier calls. -/
def Prepares (session : PreparedSession) : Prop :=
  ∃ scope_id log, (prepare_session (call.prepareCtx scope_id) call.parsed log).2 = .ok session

def ingest (session : PreparedSession) : Sql BootstrapIngestOutcome :=
  ingest_bootstrap_batch_atomic call.ctx.backend (some session.marker) call.skip_filter (session.facts.map Prod.fst) call.fingerprint
    call.ctx.backend.embed_dim

end ImportCall

/-- How far a call has come. -/
inductive Phase where
  | begun
  | resolved (scope_id : Int)
  | unseen (scope_id : Int)
  | prepared (session : PreparedSession)
  | ingested (session : PreparedSession) (flags : List (FactId × Bool))
  | empty
  | skipped
  | failed (e : Failure)
  | imported

namespace Phase

/-- The call has committed its batch. -/
def Wrote : Phase → Prop
  | ingested _ _ => True
  | imported => True
  | _ => False

/-- The call is on its way to the ingest. -/
def Ahead : Phase → Prop
  | begun => True
  | resolved _ => True
  | unseen _ => True
  | prepared _ => True
  | _ => False

/-- The call has returned an error or a report that imported nothing. -/
def Fruitless : Phase → Prop
  | empty => True
  | skipped => True
  | failed _ => True
  | _ => False

end Phase

/-- A batch that was committed. -/
structure Commit (ι : Type) where
  call : ι
  session : PreparedSession
  marker_id : Int

/-- A step of a call, the store before and after it, and its commit if it made one. -/
structure Entry (ι : Type) where
  call : ι
  before : Db
  after : Db
  commit : Option (Commit ι)

/-- The store that all calls share, and where each of them is. -/
structure World (ι : Type) where
  storage : Db
  phase : ι → Phase

section runs
variable {ι : Type} [DecidableEq ι]

def World.moved (w : World ι) (c : ι) (phase : Phase) (storage : Db) : World ι := ⟨storage,Function.update w.phase c phase⟩

/-- One step of one call. -/
inductive Step (calls : ι → ImportCall) (w : World ι) : Entry ι → World ι → Prop where
  | closed {c : ι} {e : MemoryError} (turn : w.phase c = .begun) (refused : (calls c).ctx.ensure_open = .error e) :
      Step calls w ⟨c,w.storage,w.storage,none⟩ (w.moved c (.failed (.failed e)) w.storage)
  | read_only {c : ι} {e : MemoryError} (turn : w.phase c = .begun) (opened : (calls c).ctx.ensure_open = .ok ())
      (refused : (calls c).ctx.ensure_writable = .error e) :
      Step calls w ⟨c,w.storage,w.storage,none⟩ (w.moved c (.failed (.failed e)) w.storage)
  | resolve {c : ι} {scope_id : Int} {db : Db} (turn : w.phase c = .begun) (opened : (calls c).ctx.ensure_open = .ok ())
      (writable : (calls c).ctx.ensure_writable = .ok ()) (committed : Commits (resolve_bootstrap_scope (calls c).scope) w.storage scope_id db) :
      Step calls w ⟨c,w.storage,db,none⟩ (w.moved c (.resolved scope_id) db)
  | no_session {c : ι} {scope_id : Int} (turn : w.phase c = .resolved scope_id) (unnamed : (calls c).parsed.session_id = "") :
      Step calls w ⟨c,w.storage,w.storage,none⟩ (w.moved c .empty w.storage)
  | early {c : ι} {scope_id : Int} {present : Bool} {db : Db} (turn : w.phase c = .resolved scope_id)
      (named : (calls c).parsed.session_id ≠ "") (committed : Commits (calls c).early_out w.storage present db) :
      Step calls w ⟨c,w.storage,db,none⟩ (w.moved c (if present then .skipped else .unseen scope_id) db)
  | prepare {c : ι} {scope_id : Int} {log : List Passed} {session : PreparedSession} (turn : w.phase c = .unseen scope_id)
      (prepared : (prepare_session ((calls c).prepareCtx scope_id) (calls c).parsed log).2 = .ok session) :
      Step calls w ⟨c,w.storage,w.storage,none⟩ (w.moved c (.prepared session) w.storage)
  | ingest {c : ι} {session : PreparedSession} {flags : List (FactId × Bool)} {db : Db} (turn : w.phase c = .prepared session)
      (committed : Commits ((calls c).ingest session) w.storage (.Ingested flags) db) :
      Step calls w ⟨c,w.storage,db,some ⟨c,session,w.storage.events.nextId⟩⟩ (w.moved c (.ingested session flags) db)
  | raced {c : ι} {session : PreparedSession} {db : Db} (turn : w.phase c = .prepared session)
      (committed : Commits ((calls c).ingest session) w.storage .Skipped db) :
      Step calls w ⟨c,w.storage,db,none⟩ (w.moved c .skipped db)
  | report {c : ι} {session : PreparedSession} {flags : List (FactId × Bool)} (turn : w.phase c = .ingested session flags)
      (paired : session.facts.length = flags.length) :
      Step calls w ⟨c,w.storage,w.storage,none⟩ (w.moved c .imported w.storage)
  | mismatch {c : ι} {session : PreparedSession} {flags : List (FactId × Bool)} (turn : w.phase c = .ingested session flags)
      (unpaired : session.facts.length ≠ flags.length) :
      Step calls w ⟨c,w.storage,w.storage,none⟩ (w.moved c (.failed (.failed (.Internal
        s!"bootstrap ingest returned {flags.length} flags for {session.facts.length} facts (port contract violation)"))) w.storage)
  -- the store, the consumer or the runtime may fail a call before its batch is committed
  | fail {c : ι} (e : Failure) (turn : (w.phase c).Ahead) :
      Step calls w ⟨c,w.storage,w.storage,none⟩ (w.moved c (.failed e) w.storage)

/-- Steps of any calls in any order. -/
inductive Run (calls : ι → ImportCall) (start : World ι) : List (Entry ι) → World ι → Prop where
  | start : Run calls start [] start
  | step {entries : List (Entry ι)} {entry : Entry ι} {w w' : World ι} (run : Run calls start entries w) (next : Step calls w entry w') :
      Run calls start (entries ++ [entry]) w'

end runs

end MemoryEngine.Importer
