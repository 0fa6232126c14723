import MemoryEngine.Arrivals
import MemoryEngine.IngestMirror
import MemoryEngine.Planning

/-! The watermark of the incremental dedup. Ingest calls and consolidations alternate,
and calls may fall between the snapshot of a consolidation and its commit. The
next dedup pass takes a fact for new by its creation time alone. -/

namespace MemoryEngine
open Time KeyedTable Transaction Dedup Consolidate Ingest

/-- The creation time of a requested fact. -/
def AddFactRequest.createdAt (now : DateTime) (req : AddFactRequest) : DateTime := req.options.t_created.getD now

/-- The arrivals of a batch that stores its valid entries only. -/
def storedEntries (now : DateTime) (entries : List AddFactRequest) (results : List (Except MemoryError FactId)) :
    List (FactId × DateTime) :=
  (results.zip entries).filterMap fun entry =>
    match entry.1 with
    | .ok id => some (id,entry.2.createdAt now)
    | .error _ => none

/-- A call that stores facts. -/
inductive ArrivalCall where
  | add_fact (req : AddFactRequest) (embedder : EmbeddingProvider) (classifier : Option PersistenceClassifier) (now : DateTime)
  | add_facts_batch (entries : List AddFactRequest) (embedder : EmbeddingProvider) (classifier : Option PersistenceClassifier)
      (now : DateTime)
  | add_facts_batch_partial (entries : List AddFactRequest) (embedder : EmbeddingProvider)
      (classifier : Option PersistenceClassifier) (now : DateTime)
  | bootstrap (marker : Option NewEvent) (skip_if_present : Option EventFilter) (facts : List PreparedFact)
      (fingerprint : EmbeddingFingerprint)

/-- Run a call and keep its arrivals. -/
def ArrivalCall.run (ctx : MemoryCtx) : ArrivalCall → Op (List (FactId × DateTime))
  | add_fact req embedder classifier now => do
    let id ← MemoryEngine.add_fact ctx req embedder classifier now
    return [(id,req.createdAt now)]
  | add_facts_batch entries embedder classifier now => do
    let ids ← MemoryEngine.add_facts_batch ctx entries embedder classifier now
    return ids.zip (entries.map (AddFactRequest.createdAt now))
  | add_facts_batch_partial entries embedder classifier now => do
    let results ← MemoryEngine.add_facts_batch_partial ctx entries embedder classifier now
    return storedEntries now entries results
  | bootstrap marker skip_if_present facts fingerprint => do
    let outcome ← port (Bootstrap.ingest_bootstrap_batch_atomic ctx.backend marker skip_if_present (facts.map PreparedFact.newFact)
      fingerprint ctx.backend.embed_dim)
    return outcome.arrivals (facts.map PreparedFact.newFact)

/-! Caching scopes leaves the store alone. -/

theorem storage_cacheNodes {nodes : List ScopeNode} {s t : Engine} {u : Unit} (committed : Commits (cacheNodes nodes) s u t) :
    t.storage = s.storage := by
  rw [commits_cacheNodes.mp committed]

theorem storage_port_get {sid : Int} {s t : Engine} {node : ScopeNode} (committed : Commits (port (ScopeStore.get sid)) s node t) :
    t.storage = s.storage := by
  obtain ⟨db,read,rfl⟩ := commits_port.mp committed
  exact (ScopeStore.commits_get.mp read).2.2

theorem storage_scopeChain {fuel : Nat} {seen : List Int} {current : Option Int} {s t : Engine} {nodes : List ScopeNode}
    (committed : Commits (scopeChain fuel seen current) s nodes t) : t.storage = s.storage := by
  induction fuel generalizing seen current s nodes with
  | zero =>
    obtain ⟨_,rfl⟩ := commits_pure.mp committed
    rfl
  | succ fuel ih =>
    cases current with
    | none =>
      obtain ⟨_,rfl⟩ := commits_pure.mp committed
      rfl
    | some id =>
      unfold scopeChain at committed
      split at committed
      · obtain ⟨_,rfl⟩ := commits_pure.mp committed
        rfl
      · obtain ⟨node,m,read,climbing⟩ := commits_bind.mp committed
        obtain ⟨rest,m',climbed,last⟩ := commits_bind.mp climbing
        obtain ⟨_,rfl⟩ := commits_pure.mp last
        rw [ih climbed,storage_port_get read]

theorem storage_cache_scope_chain {leaf_id : Int} {s t : Engine} {u : Unit} (committed : Commits (cache_scope_chain leaf_id) s u t) :
    t.storage = s.storage := by
  obtain ⟨_,_,current,chaining⟩ := commits_bind.mp committed
  obtain ⟨rfl,rfl⟩ := commits_get.mp current
  obtain ⟨nodes,m,chained,cached⟩ := commits_bind.mp chaining
  rw [storage_cacheNodes cached,storage_scopeChain chained]

theorem storage_readNode {sid : Int} {s t : Engine} {nodes : List ScopeNode} (committed : Commits (readNode sid) s nodes t) :
    t.storage = s.storage := by
  obtain ⟨r,m,attempted,rest⟩ := commits_bind.mp committed
  rcases commits_attempt.mp attempted with ⟨node,rfl,read⟩ | ⟨_,rfl,_,rfl⟩
  · obtain ⟨_,rfl⟩ := commits_pure.mp rest
    exact storage_port_get read
  · obtain ⟨_,rfl⟩ := commits_pure.mp rest
    rfl

theorem storage_cacheLeaves {scope_ids : List Int} {s t : Engine} {u : Unit} (committed : Commits (cacheLeaves scope_ids) s u t) :
    t.storage = s.storage := by
  obtain ⟨nodes,m,read,cached⟩ := commits_bind.mp committed
  have kept : Keeps (fun s t : Engine => t.storage = s.storage)
      (scope_ids.foldlM (fun nodes sid => do return nodes ++ (← readNode sid)) ([] : List ScopeNode) : Op (List ScopeNode)) := by
    refine Keeps.foldlM ?_ ?_ ?_ scope_ids []
    · exact fun _ => rfl
    · exact fun _ _ _ first second => second.trans first
    · intro nodes sid s nodes' t round
      obtain ⟨more,m,one,last⟩ := commits_bind.mp round
      obtain ⟨_,rfl⟩ := commits_pure.mp last
      exact storage_readNode one
  rw [storage_cacheNodes cached,kept _ _ _ read]

/-! The calls. -/

/-- As far as the store is concerned a scope is made or there is none to make. -/
theorem commits_factScope {scope : Option String} {s t : Engine} {id : Int} (committed : Commits (factScope scope) s id t) :
    t.storage = s.storage ∨ ∃ path, Commits (ScopeStore.ensure_path path) s.storage id t.storage := by
  cases scope with
  | none =>
    obtain ⟨_,rfl⟩ := commits_pure.mp committed
    exact .inl rfl
  | some path =>
    obtain ⟨leaf,m,ported,caching⟩ := commits_bind.mp committed
    obtain ⟨_,m',cached,last⟩ := commits_bind.mp caching
    obtain ⟨rfl,rfl⟩ := commits_pure.mp last
    obtain ⟨db,ensured,rfl⟩ := commits_port.mp ported
    rw [storage_cache_scope_chain cached]
    exact .inr ⟨path,ensured⟩

/-- Making a scope leaves facts and configuration alone. -/
theorem leaves_factScope {scope : Option String} {s t : Engine} {id : Int} (committed : Commits (factScope scope) s id t) :
    t.storage.config = s.storage.config ∧ t.storage.facts = s.storage.facts := by
  rcases commits_factScope committed with same | ⟨path,ensured⟩
  · rw [same]
    exact ⟨rfl,rfl⟩
  · have kept : Leaves (fun t => (t.config,t.facts)) (ScopeStore.ensure_path path) := leaves_ensure_path (fun _ _ => rfl) path
    exact Prod.mk.inj (kept _ _ _ ensured)

theorem arrives_factScope {scope : Option String} {s t : Engine} {id : Int} (committed : Commits (factScope scope) s id t) :
    Arrives [] s.storage t.storage := by
  obtain ⟨config,facts⟩ := leaves_factScope committed
  exact Arrives.of_facts config facts

/-- A call of `add_fact` makes its scope and then inserts the fact. -/
theorem commits_add_fact {ctx : MemoryCtx} {req : AddFactRequest} {embedder : EmbeddingProvider} {classifier : Option PersistenceClassifier}
    {now : DateTime} {s t : Engine} {id : FactId} (committed : Commits (add_fact ctx req embedder classifier now) s id t) :
    ∃ embedding scope_id m, Commits (factScope req.scope) s scope_id m ∧
      Commits (insert_fact_atomic ctx.backend (req.newFact embedding scope_id (shouldPin req classifier) now) embedder.fingerprint
        ctx.backend.embed_dim) m.storage id t.storage := by
  have body := commits_gated committed
  obtain ⟨_,_,validated,embedding⟩ := commits_bind.mp body
  obtain ⟨_,rfl⟩ := commits_lift.mp validated
  obtain ⟨vector,_,embedded,inserting⟩ := commits_bind.mp embedding
  obtain ⟨_,rfl⟩ := commits_lift.mp embedded
  obtain ⟨scope_id,m,found,ported⟩ := commits_bind.mp inserting
  obtain ⟨db,inserted,rfl⟩ := commits_port.mp ported
  exact ⟨vector,scope_id,m,found,inserted⟩

theorem arrives_add_fact {ctx : MemoryCtx} {req : AddFactRequest} {embedder : EmbeddingProvider}
    {classifier : Option PersistenceClassifier} {now : DateTime} {s t : Engine} {id : FactId}
    (committed : Commits (add_fact ctx req embedder classifier now) s id t) :
    Arrives [(id,req.createdAt now)] s.storage t.storage := by
  obtain ⟨embedding,scope_id,m,found,inserted⟩ := commits_add_fact committed
  exact (arrives_factScope found).trans (arrives_insert_fact_atomic rfl inserted)

theorem arrives_insert_validated_batch {ctx : MemoryCtx} {entries : List AddFactRequest} {embedder : EmbeddingProvider}
    {classifier : Option PersistenceClassifier} {now : DateTime} {s t : Engine} {ids : List FactId}
    (committed : Commits (insert_validated_batch ctx entries embedder classifier now) s ids t) :
    ids.length = entries.length ∧ Arrives (ids.zip (entries.map (AddFactRequest.createdAt now))) s.storage t.storage := by
  obtain ⟨embeddings,_,embedded,inserting⟩ := commits_bind.mp committed
  obtain ⟨_,rfl⟩ := commits_lift.mp embedded
  split at inserting
  · exact absurd inserting commits_throw
  · rename_i counted
    obtain ⟨⟨ids',scope_ids⟩,_,ported,caching⟩ := commits_bind.mp inserting
    obtain ⟨db,inserted,rfl⟩ := commits_port.mp ported
    dsimp only at caching
    split at caching
    · exact absurd caching commits_throw
    · obtain ⟨_,m,cached,last⟩ := commits_bind.mp caching
      obtain ⟨rfl,rfl⟩ := commits_pure.mp last
      have active : ∀ fact ∈ batchFacts entries embeddings (compute_batch_pins entries classifier) now, fact.t_expired = none := by
        intro fact listed
        obtain ⟨x,_,rfl⟩ := List.mem_map.mp listed
        rfl
      have created : (batchFacts entries embeddings (compute_batch_pins entries classifier) now).map NewFact.t_created =
          entries.map (AddFactRequest.createdAt now) := by
        rw [batchFacts,List.map_map]
        exact map_triples (not_not.mp counted) classifier (AddFactRequest.createdAt now)
      obtain ⟨sized,arrives⟩ := arrives_batch active inserted
      rw [storage_cacheLeaves cached,← created]
      refine ⟨?_,arrives⟩
      have lengths := congrArg List.length created
      rw [List.length_map,List.length_map] at lengths
      rw [← lengths]
      exact sized

/-- The results of a partial batch say which entry each id went to. -/
theorem storedEntries_rethread {self : SqliteBackend} (now : DateTime) {entries : List AddFactRequest} {ids : List FactId}
    (counted : ids.length = (entries.filter (valid self)).length) :
    storedEntries now entries (rethread self entries ids) =
      ids.zip ((entries.filter (valid self)).map (AddFactRequest.createdAt now)) := by
  induction entries generalizing ids with
  | nil => simp [storedEntries,rethread]
  | cons entry rest ih =>
    unfold rethread
    cases checked : validate_add_fact_request self entry with
    | error e =>
      have invalid : valid self entry = false := by rw [valid,checked]
      rw [List.filter_cons_of_neg (by rw [invalid]; exact Bool.false_ne_true)] at counted ⊢
      exact ih counted
    | ok _ =>
      have good : valid self entry = true := by rw [valid,checked]
      rw [List.filter_cons_of_pos good] at counted ⊢
      cases ids with
      | nil => cases counted
      | cons id more =>
        have shorter : more.length = (rest.filter (valid self)).length := by simpa using counted
        rw [List.map_cons,List.zip_cons_cons,← ih shorter]
        rfl

/-- Every call stores what its arrivals say. -/
theorem arrives_call {ctx : MemoryCtx} {call : ArrivalCall} {s t : Engine} {arrivals : List (FactId × DateTime)}
    (committed : Commits (call.run ctx) s arrivals t) : Arrives arrivals s.storage t.storage := by
  cases call with
  | add_fact req embedder classifier now =>
    obtain ⟨id,m,added,last⟩ := commits_bind.mp committed
    obtain ⟨rfl,rfl⟩ := commits_pure.mp last
    exact arrives_add_fact added
  | add_facts_batch entries embedder classifier now =>
    obtain ⟨ids,m,added,last⟩ := commits_bind.mp committed
    obtain ⟨rfl,rfl⟩ := commits_pure.mp last
    have body := commits_gated added
    split at body
    · obtain ⟨rfl,rfl⟩ := commits_pure.mp body
      exact Arrives.of_facts rfl rfl
    · obtain ⟨_,_,validated,inserted⟩ := commits_bind.mp body
      obtain ⟨_,rfl⟩ := commits_lift.mp validated
      exact (arrives_insert_validated_batch inserted).2
  | add_facts_batch_partial entries embedder classifier now =>
    obtain ⟨results,m,added,last⟩ := commits_bind.mp committed
    obtain ⟨rfl,rfl⟩ := commits_pure.mp last
    have body := commits_gated added
    split at body
    · rename_i empty
      obtain ⟨rfl,rfl⟩ := commits_pure.mp body
      exact Arrives.of_facts rfl rfl
    · obtain ⟨ids,_,inserted,done⟩ := commits_bind.mp body
      obtain ⟨rfl,rfl⟩ := commits_pure.mp done
      unfold insertKept at inserted
      split at inserted
      · rename_i none_
        obtain ⟨rfl,rfl⟩ := commits_pure.mp inserted
        rw [storedEntries_rethread now (by rw [none_]; rfl)]
        exact Arrives.of_facts rfl rfl
      · obtain ⟨counted,arrives⟩ := arrives_insert_validated_batch inserted
        rw [storedEntries_rethread now counted]
        exact arrives
  | bootstrap marker skip_if_present facts fingerprint =>
    obtain ⟨outcome,m,ported,last⟩ := commits_bind.mp committed
    obtain ⟨rfl,rfl⟩ := commits_pure.mp last
    obtain ⟨db,ingested,rfl⟩ := commits_port.mp ported
    refine arrives_bootstrap (fun fact listed => ?_) ingested
    obtain ⟨prepared,_,rfl⟩ := List.mem_map.mp listed
    rfl

/-- A session import is scope creation followed by at most one bootstrap batch. -/
theorem commits_bootstrap_session {ctx : MemoryCtx} {scope : Option String} {session_id : String} {skip_existing : Bool}
    {prepare : Int → Except MemoryError (NewEvent × List PreparedFact)} {fingerprint : EmbeddingFingerprint} {s t : Engine}
    {outcome : BootstrapIngestOutcome}
    (committed : Commits (bootstrap_session ctx scope session_id skip_existing prepare fingerprint) s outcome t) :
    ∃ m, Arrives [] s.storage m.storage ∧ (t = m ∨ ∃ marker skip_if_present facts arrivals,
      Commits ((ArrivalCall.bootstrap marker skip_if_present facts fingerprint).run ctx) m arrivals t) := by
  have body := commits_gated committed
  obtain ⟨scope_id,m,found,importing⟩ := commits_bind.mp body
  refine ⟨m,arrives_factScope found,?_⟩
  split at importing
  · obtain ⟨_,rfl⟩ := commits_pure.mp importing
    exact .inl rfl
  · obtain ⟨already,m',looked,rest⟩ := commits_bind.mp importing
    have unread : m' = m := by
      unfold alreadyBootstrapped at looked
      split at looked
      · obtain ⟨present,_,ported,last⟩ := commits_bind.mp looked
        obtain ⟨_,rfl⟩ := commits_pure.mp last
        obtain ⟨db,counted,rfl⟩ := commits_port.mp ported
        obtain ⟨_,_,checked,queried⟩ := commits_bind.mp counted
        obtain ⟨_,rfl⟩ := commits_require.mp checked
        obtain ⟨_,rfl⟩ := commits_query.mp queried
        rfl
      · exact (commits_pure.mp looked).2
    rw [unread] at rest
    split at rest
    · obtain ⟨_,rfl⟩ := commits_pure.mp rest
      exact .inl rfl
    · obtain ⟨⟨marker,facts⟩,_,prepared,ported⟩ := commits_bind.mp rest
      obtain ⟨_,rfl⟩ := commits_lift.mp prepared
      exact .inr ⟨some marker,_,facts,_,commits_bind.mpr ⟨outcome,t,ported,commits_pure.mpr ⟨rfl,rfl⟩⟩⟩

/-! Consolidation in two phases. -/

/-- The snapshot and the plan computed from it. -/
def beginConsolidation (ctx : MemoryCtx) (run : ConsolidationRun) (now : DateTime) : Op (Snapshot × ConsolidationPlan) := do
  ctx.ensure_open
  ctx.ensure_writable
  let snapshot ← port (load_snapshot ctx.backend run.parse_from_rfc3339 run.config now)
  let plan ← run.compute_plan snapshot
  return (snapshot,plan)

/-- The commit of a plan. -/
def finishConsolidation (ctx : MemoryCtx) (plan : ConsolidationPlan) : Op ConsolidationStats := do
  let (stats,expired_ids) ← port (apply_plan ctx.backend plan)
  guarded (expired_ids ≠ []) reload_graph
  return stats

/-- The two phases in a row are a consolidation. -/
theorem consolidate_eq (ctx : MemoryCtx) (run : ConsolidationRun) (now : DateTime) :
    consolidate ctx run.consolidator run.config now =
      (beginConsolidation ctx run now >>= fun begun => finishConsolidation ctx begun.2) := by
  simp only [beginConsolidation,bind_assoc,pure_bind]
  rfl

/-- A run so far: the engine, the store as the last snapshot saw it, the plan that
    waits for its commit, the time of the last plan that moved the watermark and
    the arrivals since the last snapshot. -/
structure History where
  engine : Engine
  base : Option Db
  pending : Option ConsolidationPlan
  stamp : Option DateTime
  arrivals : List (FactId × DateTime)

/-- The runs of ingest calls and consolidations, one consolidation at a time. A failed
    call may leave scopes behind, and a plan may never be committed. -/
inductive History.Reached (ctx : MemoryCtx) : History → Prop where
  | start {engine : Engine} {stamp : Option DateTime}
      (watermark : engine.storage.config.lookup "last_consolidated_at" = stamp.map DateTime.to_rfc3339) :
      Reached ctx ⟨engine,none,none,stamp,[]⟩
  | call {h : History} {call : ArrivalCall} {arrivals : List (FactId × DateTime)} {t : Engine} (before : Reached ctx h)
      (committed : Commits (call.run ctx) h.engine arrivals t) :
      Reached ctx { h with engine := t, arrivals := h.arrivals ++ arrivals }
  | aside {h : History} {t : Engine} (before : Reached ctx h) (config : t.storage.config = h.engine.storage.config)
      (facts : t.storage.facts = h.engine.storage.facts) : Reached ctx { h with engine := t }
  | snapshot {h : History} {run : ConsolidationRun} {now : DateTime} {snapshot : Snapshot} {plan : ConsolidationPlan} {t : Engine}
      (before : Reached ctx h) (idle : h.pending = none)
      (begun : Commits (beginConsolidation ctx run now) h.engine (snapshot,plan) t) :
      Reached ctx ⟨t,some h.engine.storage,some plan,h.stamp,[]⟩
  | apply {h : History} {plan : ConsolidationPlan} {stats : ConsolidationStats} {t : Engine} (before : Reached ctx h)
      (pending : h.pending = some plan) (finished : Commits (finishConsolidation ctx plan) h.engine stats t) :
      Reached ctx { h with
        engine := t
        pending := none
        stamp := if plan.dedup.skipped then h.stamp else some plan.now }
  | abandon {h : History} (before : Reached ctx h) : Reached ctx { h with pending := none }

/-- What holds throughout a run: the watermark is the recorded one, a waiting plan
    expires facts of the snapshot only, and a fact stored since the last snapshot is
    active with the earliest creation time supplied for it. -/
structure History.Sound (h : History) : Prop where
  watermark : h.engine.storage.config.lookup "last_consolidated_at" = h.stamp.map DateTime.to_rfc3339
  planned : ∀ plan ∈ h.pending, plan.dedup.importance_updates = [] ∧
    ∃ base ∈ h.base, ∀ e ∈ plan.dedup.expirations, base.facts.Has e.loser
  used : ∀ a ∈ h.arrivals, h.engine.storage.facts.Has a.1
  fresh : ∀ base ∈ h.base, ∀ f ∈ h.engine.storage.facts.rows, ¬ base.facts.Has f.id →
    f.t_expired = none ∧ earliest (times h.arrivals f.id) = some f.t_created

namespace History
variable {ctx : MemoryCtx}

theorem Sound.arrive {h : History} {arrivals : List (FactId × DateTime)} {t : Engine} (sound : h.Sound)
    (arrives : Arrives arrivals h.engine.storage t.storage) :
    Sound { h with engine := t, arrivals := h.arrivals ++ arrivals } where
  watermark := by
    rw [arrives.config]
    exact sound.watermark
  planned := sound.planned
  used := by
    intro a listed
    rcases List.mem_append.mp listed with old | new
    · exact arrives.kept _ (sound.used a old)
    · exact arrives.used a new
  fresh := by
    intro base last f' member away
    rw [times_append]
    rcases arrives.rows f' member with ⟨f,held,same,expiry,created⟩ | ⟨unused,active,created⟩
    · obtain ⟨active,first⟩ := sound.fresh base last f held (same ▸ away)
      rw [same] at first
      exact ⟨expiry.trans active,by rw [earliest_append first,created]⟩
    · have absent : times h.arrivals f'.id = [] := times_of_absent fun a listed here => unused (here ▸ sound.used a listed)
      rw [absent,List.nil_append]
      exact ⟨active,created⟩

theorem commits_beginConsolidation {run : ConsolidationRun} {now : DateTime} {s t : Engine} {snapshot : Snapshot}
    {plan : ConsolidationPlan} (begun : Commits (beginConsolidation ctx run now) s (snapshot,plan) t) :
    t = s ∧ Commits (load_snapshot ctx.backend run.parse_from_rfc3339 run.config now) s.storage snapshot s.storage ∧
      run.compute_plan snapshot = .ok plan := by
  have body := commits_gated begun
  obtain ⟨taken,_,ported,planning⟩ := commits_bind.mp body
  obtain ⟨db,loaded,rfl⟩ := commits_port.mp ported
  obtain ⟨made,_,computed,last⟩ := commits_bind.mp planning
  obtain ⟨planned,rfl⟩ := commits_lift.mp computed
  obtain ⟨same,rfl⟩ := commits_pure.mp last
  cases same
  obtain ⟨rfl,_⟩ := commits_load_snapshot loaded
  exact ⟨rfl,loaded,planned⟩

theorem Sound.snapshot {h : History} {run : ConsolidationRun} {now : DateTime} {snapshot : Snapshot} {plan : ConsolidationPlan}
    {t : Engine} (sound : h.Sound) (begun : Commits (beginConsolidation ctx run now) h.engine (snapshot,plan) t) :
    Sound ⟨t,some h.engine.storage,some plan,h.stamp,[]⟩ := by
  obtain ⟨rfl,loaded,computed⟩ := commits_beginConsolidation begun
  obtain ⟨_,_,_,taken,_⟩ := commits_load_snapshot loaded
  obtain ⟨planned,_⟩ := planned_compute_plan computed taken
  refine ⟨sound.watermark,?_,by simp,?_⟩
  · intro plan' waiting
    cases waiting
    refine ⟨planned.updates,_,rfl,fun e listed => ?_⟩
    obtain ⟨loser,member,_,_,same,_⟩ := planned.origin e listed
    rw [← same]
    rcases taken with ⟨_,nothing⟩ | ⟨_,all⟩
    · rw [nothing] at member
      cases member
    · rw [all] at member
      exact Table.has_of_mem (List.mem_filter.mp member).1
  · rintro base last f member away
    cases last
    exact absurd (Table.has_of_mem member) away

theorem Sound.apply {h : History} {plan : ConsolidationPlan} {stats : ConsolidationStats} {t : Engine} (sound : h.Sound)
    (pending : h.pending = some plan) (finished : Commits (finishConsolidation ctx plan) h.engine stats t) :
    Sound { h with
      engine := t
      pending := none
      stamp := if plan.dedup.skipped then h.stamp else some plan.now } := by
  obtain ⟨⟨stats',expired_ids⟩,m,ported,reloading⟩ := commits_bind.mp finished
  obtain ⟨db,applied,rfl⟩ := commits_port.mp ported
  have storage : t.storage = db := by
    obtain ⟨_,m',reloaded,last⟩ := commits_bind.mp reloading
    obtain ⟨_,rfl⟩ := commits_pure.mp last
    rcases commits_guarded.mp reloaded with ⟨_,loaded⟩ | ⟨_,rfl⟩
    · obtain ⟨edges,m'',listing,mirrored⟩ := commits_bind.mp loaded
      obtain ⟨db',listed,rfl⟩ := commits_port.mp listing
      rw [commits_mirror.mp mirrored]
      exact (EdgeStore.commits_list_active.mp listed).2.2
    · rfl
  obtain ⟨⟨dedup,m',deduplicated,facts⟩,watermark⟩ := commits_apply_plan applied
  obtain ⟨updates,base,last,within⟩ := sound.planned plan pending
  obtain ⟨ran,part,_,grown,expires⟩ := expires_apply_dedup updates deduplicated
  have births : db.births = h.engine.storage.births := by
    rw [Tables.births,facts]
    exact (Prod.mk.inj (keepsBirths_apply_dedup _ _ _ _ _ deduplicated)).2
  refine ⟨?_,by simp,?_,?_⟩
  · rw [storage,watermark,sound.watermark]
    split <;> rfl
  · intro a listed
    rw [storage,has_iff_births,births,← has_iff_births]
    exact sound.used a listed
  · intro base' last' f' member away
    cases last.symm.trans last'
    rw [storage] at member
    have born : (f'.id,f'.t_created) ∈ h.engine.storage.births := births ▸ List.mem_map.mpr ⟨f',member,rfl⟩
    obtain ⟨f,held,same⟩ := List.mem_map.mp born
    obtain ⟨sameId,sameTime⟩ := Prod.mk.inj same
    obtain ⟨active,first⟩ := sound.fresh base last f held (sameId ▸ away)
    rw [sameId,sameTime] at first
    refine ⟨?_,first⟩
    -- the plan was made before the fact came in, so it is not among its losers
    have spared : f'.id ∉ dedup.expired := by
      intro listed
      rw [grown] at listed
      obtain ⟨e,chosen,loser⟩ := List.mem_map.mp listed
      exact away (loser ▸ within e (part.subset chosen))
    have alive : m'.IsActive f'.id := (expires.after _).mpr ⟨⟨f,held,sameId,active⟩,spared⟩
    obtain ⟨g,listed,here,expiry⟩ := alive
    rw [facts] at member
    rwa [m'.facts.key_unique member listed here.symm]

theorem Reached.sound {h : History} (reached : h.Reached ctx) : h.Sound := by
  induction reached with
  | start watermark => exact ⟨watermark,by simp,by simp,by simp⟩
  | call before committed ih => exact ih.arrive (arrives_call committed)
  | @aside h t before config facts ih =>
    have kept := ih.arrive (t := t) (Arrives.of_facts config facts)
    rwa [List.append_nil] at kept
  | snapshot before idle begun ih => exact ih.snapshot begun
  | apply before pending finished ih => exact ih.apply pending finished
  | abandon before ih => exact ⟨ih.watermark,by simp,ih.used,ih.fresh⟩

/-- A snapshot reads the time of the last plan that moved the watermark. -/
theorem Sound.last {h : History} (sound : h.Sound) {run : ConsolidationRun} {now : DateTime} {snapshot : Snapshot} {t : Db}
    (loaded : Commits (load_snapshot ctx.backend run.parse_from_rfc3339 run.config now) h.engine.storage snapshot t)
    (reads : ∀ stamp ∈ h.stamp, ∀ time, run.parse_from_rfc3339 stamp.to_rfc3339 = .ok time → time = stamp) :
    snapshot.last = h.stamp := by
  obtain ⟨_,_,parsed,_⟩ := commits_load_snapshot loaded
  rw [sound.watermark] at parsed
  cases marked : h.stamp with
  | none =>
    rw [marked,Option.map_none,parseWatermark] at parsed
    exact (Except.ok.inj parsed).symm
  | some stamp =>
    rw [marked,Option.map_some,parseWatermark] at parsed
    cases text : run.parse_from_rfc3339 stamp.to_rfc3339 with
    | error e =>
      rw [text] at parsed
      cases parsed
    | ok time =>
      rw [text] at parsed
      rw [← Except.ok.inj parsed,reads stamp marked time text]

end History

/-- In every run, a fact stored since the last snapshot drives the next dedup pass
    exactly when the pass is not over its cap and the earliest creation time supplied
    for the fact is later than the snapshot that the watermark stands for. -/
theorem new_fact_drives_iff {ctx : MemoryCtx} {h : History} (reached : h.Reached ctx) {base : Db} (last : h.base = some base)
    {run : ConsolidationRun} {now : DateTime} {snapshot : Snapshot} {plan : ConsolidationPlan} {t : Engine}
    (begun : Commits (beginConsolidation ctx run now) h.engine (snapshot,plan) t)
    (reads : ∀ stamp ∈ h.stamp, ∀ time, run.parse_from_rfc3339 stamp.to_rfc3339 = .ok time → time = stamp) {f : Fact}
    (member : f ∈ h.engine.storage.facts.rows) (new : ¬ base.facts.Has f.id) :
    run.Drives snapshot f ↔ h.engine.storage.activeFacts.length ≤ MAX_FACTS_FOR_DEDUP ∧
      ∀ stamp ∈ h.stamp, ∀ first ∈ earliest (times h.arrivals f.id), stamp < first := by
  have sound := reached.sound
  obtain ⟨active,created⟩ := sound.fresh base last f member new
  obtain ⟨rfl,loaded,_⟩ := History.commits_beginConsolidation begun
  obtain ⟨_,_,_,taken,capped⟩ := commits_load_snapshot loaded
  rw [ConsolidationRun.Drives,ConsolidationRun.dedup,compute_dedup_skipped,sound.last loaded reads,created]
  rcases taken with ⟨both,nothing⟩ | ⟨_,all⟩
  · rw [nothing]
    have large := capped both
    constructor
    · rintro ⟨_,driver⟩
      have listed := drivers_subset [] h.stamp driver
      cases listed
    · rintro ⟨small,_⟩
      omega
  · rw [all]
    refine and_congr_right fun _ => ?_
    have listed : f ∈ h.engine.storage.facts.rows.filter fun f => f.t_expired.isNone := List.mem_filter.mpr ⟨member,by simp [active]⟩
    cases h.stamp with
    | none => simpa [drivers] using ⟨member,active⟩
    | some stamp =>
      rw [drivers,List.mem_filter]
      simpa using fun _ => ⟨member,active⟩

namespace Sample

/-- A consolidation that finds no duplicates and makes no summaries. -/
def idleRun : ConsolidationRun where
  parse_from_rfc3339 := fun text => if text = moment.to_rfc3339 then .ok moment else .error "input contains invalid characters"
  similarity := fun _ _ => 0
  dedup_threshold := 0x3F800000
  cluster_threshold := 0x3F800000
  min_cluster_size := 2
  compute_clusters := fun _ _ => .ok (false,[])
  compute_global := fun _ _ => .ok none
  fingerprint := embedder.fingerprint

/-- A memory file written a year before the consolidation. -/
def historical : PreparedFact where
  content := "d"
  embedding := [0x3F000000]
  fact_type := .Semantic
  effective_created := { moment with year := 2025 }
  importance := F64.ofRat (1 / 2)
  metadata := .obj []
  scope_id := 1
  is_pinned := false

/-- A consolidation, the import of the file and the snapshot of the next
    consolidation, in which the file's fact drives nothing. -/
def imported : Bool :=
  Ends (beginConsolidation ctx idleRun moment) engine fun begun e₁ => begun.2.now = moment && !begun.2.dedup.skipped &&
    Ends (finishConsolidation ctx begun.2) e₁ fun _ e₂ =>
      Ends ((ArrivalCall.bootstrap none none [historical] embedder.fingerprint).run ctx) e₂ fun _ e₃ =>
        e₃.storage.facts.rows.any (fun f => f.id == 4) && Ends (beginConsolidation ctx idleRun moment) e₃ fun again _ =>
          !(drivers again.1.active_facts again.1.last).any (fun f => f.id == 4)

theorem imported_run : ∃ (h : History) (snapshot : Snapshot) (plan : ConsolidationPlan) (t : Engine) (f : Fact),
    h.Reached ctx ∧ h.base = some engine.storage ∧ h.stamp = some moment ∧
      Commits (beginConsolidation ctx idleRun moment) h.engine (snapshot,plan) t ∧ f ∈ h.engine.storage.facts.rows ∧
        ¬ engine.storage.facts.Has f.id ∧ ¬ idleRun.Drives snapshot f := by
  have ran : imported = true := by decide +kernel
  unfold imported at ran
  obtain ⟨⟨snapshot₁,plan₁⟩,e₁,begun,ran⟩ := commits_of_ends ran
  obtain ⟨same,ran⟩ := Bool.and_eq_true_iff.mp ran
  obtain ⟨timed,compared⟩ := Bool.and_eq_true_iff.mp same
  obtain ⟨stats,e₂,finished,ran⟩ := commits_of_ends ran
  obtain ⟨arrivals,e₃,called,ran⟩ := commits_of_ends ran
  obtain ⟨held,ran⟩ := Bool.and_eq_true_iff.mp ran
  obtain ⟨⟨snapshot,plan⟩,t,again,quiet⟩ := commits_of_ends ran
  obtain ⟨f,member,here⟩ := List.any_eq_true.mp held
  have started : History.Reached ctx ⟨engine,none,none,none,[]⟩ := .start (by decide +kernel)
  have reached := History.Reached.call ((started.snapshot rfl begun).apply rfl finished) called
  refine ⟨_,snapshot,plan,t,f,reached,rfl,?_,again,member,?_,?_⟩
  · have skipped : plan₁.dedup.skipped = false := by simpa using compared
    have now : plan₁.now = moment := of_decide_eq_true timed
    simp [skipped,now]
  · rw [beq_iff_eq.mp here]
    decide +kernel
  · rintro ⟨_,driver⟩
    have listed : (drivers snapshot.active_facts snapshot.last).any (fun f => f.id == 4) = true := List.any_eq_true.mpr ⟨f,driver,here⟩
    simp only [listed] at quiet
    cases quiet

theorem idleRun_reads {stamp : Option DateTime} (same : stamp = some moment) :
    ∀ s ∈ stamp, ∀ time, idleRun.parse_from_rfc3339 s.to_rfc3339 = .ok time → time = s := by
  intro s marked time parsed
  cases same.symm.trans marked
  simp only [idleRun,if_true,Except.ok.injEq] at parsed
  exact parsed.symm

end Sample

/-- The conditions of the file's fact in the run above. -/
theorem new_fact_drives_sample : ∃ (h : History) (snapshot : Snapshot) (f : Fact), h.Reached Sample.ctx ∧
    (Sample.idleRun.Drives snapshot f ↔ h.engine.storage.activeFacts.length ≤ MAX_FACTS_FOR_DEDUP ∧
      ∀ stamp ∈ h.stamp, ∀ first ∈ earliest (times h.arrivals f.id), stamp < first) := by
  obtain ⟨h,snapshot,plan,t,f,reached,last,stamp,begun,member,new,_⟩ := Sample.imported_run
  exact ⟨h,snapshot,f,reached,new_fact_drives_iff reached last begun (Sample.idleRun_reads stamp) member new⟩

/-- A fact imported between two consolidations with the time of an old turn is passed
    over by the second one. -/
theorem imported_fact_passed_over : ¬ ∀ (ctx : MemoryCtx) (h : History) (base : Db) (run : ConsolidationRun) (now : DateTime)
    (snapshot : Snapshot) (plan : ConsolidationPlan) (t : Engine) (f : Fact), h.Reached ctx → h.base = some base →
      Commits (beginConsolidation ctx run now) h.engine (snapshot,plan) t →
        (∀ stamp ∈ h.stamp, ∀ time, run.parse_from_rfc3339 stamp.to_rfc3339 = .ok time → time = stamp) →
          f ∈ h.engine.storage.facts.rows → ¬ base.facts.Has f.id → run.Drives snapshot f := by
  intro claim
  obtain ⟨h,snapshot,plan,t,f,reached,last,stamp,begun,member,new,passed⟩ := Sample.imported_run
  exact passed (claim _ h _ _ _ snapshot plan t f reached last begun (Sample.idleRun_reads stamp) member new)

end MemoryEngine
