import MemoryEngine.Bootstrap

/-! What ingest does to the creation times of facts. A call is described by its
arrivals, the ids it answers for with the creation times it supplied; the time
stored for a fact is the earliest supplied for it. -/

namespace MemoryEngine
open Time KeyedTable Transaction

/-- The creation times supplied for an id. -/
def times (arrivals : List (FactId × DateTime)) (id : FactId) : List DateTime := (arrivals.filter fun a => a.1 == id).map Prod.snd

/-- The earliest of some instants by the order of their texts. -/
def earliest : List DateTime → Option DateTime
  | [] => none
  | first :: rest => some (rest.foldl textMin first)

theorem times_append (arrivals arrivals' : List (FactId × DateTime)) (id : FactId) :
    times (arrivals ++ arrivals') id = times arrivals id ++ times arrivals' id := by
  simp [times]

theorem times_of_absent {arrivals : List (FactId × DateTime)} {id : FactId} (absent : ∀ a ∈ arrivals, a.1 ≠ id) :
    times arrivals id = [] := by
  rw [times,List.filter_eq_nil_iff.mpr,List.map_nil]
  simpa using absent

theorem times_single (id : FactId) (t : DateTime) : times [(id,t)] id = [t] := by
  simp [times]

theorem earliest_append {times times' : List DateTime} {first : DateTime} (same : earliest times = some first) :
    earliest (times ++ times') = some (times'.foldl textMin first) := by
  cases times with
  | nil => cases same
  | cons t rest =>
    cases same
    rw [List.cons_append,earliest,List.foldl_append]

/-- A call with these arrivals: facts are added as active, an old fact keeps its
    activity, and each has the earliest creation time supplied. -/
structure Arrives (arrivals : List (FactId × DateTime)) (s t : Db) : Prop where
  config : t.config = s.config
  used : ∀ a ∈ arrivals, t.facts.Has a.1
  kept : ∀ id, s.facts.Has id → t.facts.Has id
  rows : ∀ f' ∈ t.facts.rows,
    (∃ f ∈ s.facts.rows, f.id = f'.id ∧ f'.t_expired = f.t_expired ∧ f'.t_created = (times arrivals f'.id).foldl textMin f.t_created) ∨
      (¬ s.facts.Has f'.id ∧ f'.t_expired = none ∧ earliest (times arrivals f'.id) = some f'.t_created)

namespace Arrives

/-- Without arrivals the facts stay. -/
theorem of_facts {s t : Db} (config : t.config = s.config) (facts : t.facts = s.facts) : Arrives [] s t where
  config := config
  used := by simp
  kept := by rw [facts]; exact fun _ has => has
  rows := by
    rw [facts]
    exact fun f member => .inl ⟨f,member,rfl,rfl,rfl⟩

theorem trans {arrivals arrivals' : List (FactId × DateTime)} {s m t : Db} (first : Arrives arrivals s m)
    (second : Arrives arrivals' m t) : Arrives (arrivals ++ arrivals') s t where
  config := second.config.trans first.config
  used := by
    intro a listed
    rcases List.mem_append.mp listed with old | new
    · exact second.kept _ (first.used a old)
    · exact second.used a new
  kept := fun id has => second.kept id (first.kept id has)
  rows := by
    intro f'' member
    rw [times_append]
    rcases second.rows f'' member with ⟨f',member',same',expiry',created'⟩ | ⟨fresh,active,created⟩
    · rcases first.rows f' member' with ⟨f,held,same,expiry,created⟩ | ⟨fresh,active,created⟩
      · refine .inl ⟨f,held,same.trans same',expiry'.trans expiry,?_⟩
        rw [created',created,same',List.foldl_append]
      · rw [same'] at fresh created
        exact .inr ⟨fresh,expiry'.trans active,by rw [earliest_append created,created']⟩
    · -- no earlier arrival can have had an id that was unused in between
      have absent : times arrivals f''.id = [] := times_of_absent fun a listed same => fresh (same ▸ first.used a listed)
      rw [absent,List.nil_append]
      exact .inr ⟨fun has => fresh (first.kept _ has),active,created⟩

end Arrives

section statements
variable {self : SqliteBackend}

theorem arrives_insert {fact : NewFact} {s t : Db} {id : FactId} (active : fact.t_expired = none)
    (committed : Commits (FactStore.insert self fact) s id t) : Arrives [(id,fact.t_created)] s t := by
  obtain ⟨_,importance,_,rfl,written⟩ := FactStore.commits_insert.mp committed
  refine ⟨by rw [written],?_,?_,?_⟩
  · rw [written]
    simp
  · intro other has
    rw [written,Table.has_insert]
    exact .inl has
  · intro f' member
    rw [written,Table.mem_insert] at member
    rcases member with old | rfl
    · have absent : times [(s.facts.nextId,fact.t_created)] f'.id = [] :=
        times_of_absent (by simpa [Row.key] using ((s.facts.nextId_fresh old).ne).symm)
      rw [absent]
      exact .inl ⟨f',old,rfl,rfl,by rw [List.foldl_nil]⟩
    · refine .inr ⟨s.facts.not_has_nextId,active,?_⟩
      rw [FactStore.newRow,times_single,earliest,List.foldl_nil]

theorem arrives_reinforce {fact : NewFact} {id : FactId} {s t : Db} {u : Unit} (has : s.facts.Has id)
    (committed : Commits (FactStore.reinforce fact id) s u t) : Arrives [(id,fact.t_created)] s t := by
  unfold FactStore.reinforce at committed
  split at committed
  · exact absurd committed commits_throw
  · rename_i importance _
    have written : t.toTables = s.updateFact id (FactStore.reinforced fact importance) (FactStore.reinforced_id fact importance) := commits_execute.mp committed
    refine ⟨by rw [written]; rfl,?_,?_,?_⟩
    · rw [written,Tables.updateFact_facts]
      simpa using has
    · intro other held
      rw [written,Tables.updateFact_facts,Table.has_update]
      exact held
    · intro f' member
      rw [written,Tables.updateFact_facts,Table.mem_update] at member
      obtain ⟨f,old,rfl⟩ := member
      by_cases here : f.id = id
      · obtain ⟨expired,created⟩ := FactStore.reinforced_times fact importance f
        rw [if_pos (beq_iff_eq.mpr here),FactStore.reinforced_id,expired,created,here,times_single]
        exact .inl ⟨f,old,here,rfl,by rw [List.foldl_cons,List.foldl_nil]⟩
      · have absent : times [(id,fact.t_created)] f.id = [] := times_of_absent (by simpa using fun same : id = f.id => here same.symm)
        rw [if_neg (by simpa using here),absent]
        exact .inl ⟨f,old,rfl,rfl,by rw [List.foldl_nil]⟩

theorem arrives_insert_or_reinforce {fact : NewFact} {s t : Db} {flag : FactId × Bool} (active : fact.t_expired = none)
    (committed : Commits (FactStore.insert_or_reinforce self fact) s flag t) : Arrives [(flag.1,fact.t_created)] s t := by
  obtain ⟨_,_,sized,looking⟩ := commits_bind.mp committed
  obtain ⟨_,rfl⟩ := commits_require.mp sized
  obtain ⟨found,_,looked,rest⟩ := commits_bind.mp looking
  obtain ⟨rfl,rfl⟩ := commits_query.mp looked
  split at rest
  · rename_i id same
    obtain ⟨_,m,reinforced,last⟩ := commits_bind.mp rest
    obtain ⟨rfl,rfl⟩ := commits_pure.mp last
    obtain ⟨f,located,rfl⟩ := Option.map_eq_some_iff.mp same
    exact arrives_reinforce ⟨f,List.mem_of_find?_eq_some located,rfl⟩ reinforced
  · obtain ⟨id,m,inserted,last⟩ := commits_bind.mp rest
    obtain ⟨rfl,rfl⟩ := commits_pure.mp last
    exact arrives_insert active inserted

/-- What leaves facts and configuration alone brings no arrival. -/
theorem arrives_none {α : Type} {x : Sql α} (keeps : Leaves (fun t => (t.config,t.facts)) x) {s t : Db} {a : α}
    (committed : Commits x s a t) : Arrives [] s t := by
  obtain ⟨config,facts⟩ := Prod.mk.inj (keeps s a t committed)
  exact Arrives.of_facts config facts

theorem arrives_record_if_absent {candidate stored : EmbeddingFingerprint} {expected_dim : Nat} {s t : Db}
    (committed : Commits (EmbeddingMeta.record_if_absent candidate expected_dim) s stored t) : Arrives [] s t :=
  arrives_none (EmbeddingMeta.leaves_record_if_absent _ (fun _ _ => rfl) _ _) committed

/-- Scopes are resolved in their own table. -/
theorem leaves_ensureFrom {γ : Type} {part : Tables → γ} (apart : ∀ t scopes, part { t with scopes := scopes } = part t) (segs : List String)
    (parent depth : Int) : Leaves part (ScopeStore.ensureFrom parent depth segs) := by
  induction segs generalizing parent depth with
  | nil => exact leaves_pure _
  | cons segment rest ih =>
    have inserted : Leaves part (execute fun t => ScopeStore.insertOrIgnore t parent segment depth) := by
      refine leaves_execute fun t => ?_
      unfold ScopeStore.insertOrIgnore
      split
      · rfl
      · exact apart _ _
    refine leaves_bind (leaves_lift _) fun _ => leaves_bind inserted fun _ => leaves_bind leaves_query fun found => ?_
    cases found with
    | none => exact Keeps.throw _
    | some node => exact ih _ _

theorem leaves_ensure_path {γ : Type} {part : Tables → γ} (apart : ∀ t scopes, part { t with scopes := scopes } = part t) (path : String) :
    Leaves part (ScopeStore.ensure_path path) := leaves_bind leaves_require fun _ => leaves_ensureFrom apart _ _ _

theorem leaves_resolveEntries {γ : Type} (part : Tables → γ) (apart : ∀ t scopes, part { t with scopes := scopes } = part t)
    (scope_paths : List (Option String)) (acc : Ingest.ResolvedScopes) : Leaves part (scope_paths.foldlM Ingest.resolveEntry acc) := by
  refine leaves_foldlM (fun acc scope => ?_) scope_paths acc
  cases scope with
  | none => exact leaves_pure _
  | some path =>
    rw [Ingest.resolveEntry]
    split
    · exact leaves_pure _
    · exact leaves_bind (leaves_ensure_path apart path) fun _ => leaves_pure _

theorem arrives_ensure_path {path : String} {s t : Db} {id : Int} (committed : Commits (ScopeStore.ensure_path path) s id t) :
    Arrives [] s t :=
  arrives_none (leaves_ensure_path (fun _ _ => rfl) path) committed

theorem arrives_insert_fact_atomic {fact : NewFact} {fingerprint : EmbeddingFingerprint} {expected_dim : Nat} {s t : Db} {id : FactId}
    (active : fact.t_expired = none) (committed : Commits (Ingest.insert_fact_atomic self fact fingerprint expected_dim) s id t) :
    Arrives [(id,fact.t_created)] s t := by
  obtain ⟨_,m,stamped,inserted⟩ := commits_bind.mp committed
  exact (arrives_record_if_absent stamped).trans (arrives_insert active inserted)

theorem arrives_insertEntries {entries : List (NewFact × Int)} {ids ids' : List FactId} {s t : Db}
    (active : ∀ entry ∈ entries, entry.1.t_expired = none)
    (committed : Commits (entries.foldlM (fun ids entry => do
      let id ← FactStore.insert self { entry.1 with scope_id := entry.2 }
      return ids ++ [id]) ids) s ids' t) :
    ∃ fresh : List FactId, ids' = ids ++ fresh ∧ fresh.length = entries.length ∧
      Arrives (fresh.zip (entries.map fun entry => entry.1.t_created)) s t := by
  induction entries generalizing ids s with
  | nil =>
    obtain ⟨rfl,rfl⟩ := commits_pure.mp committed
    exact ⟨[],by simp,rfl,Arrives.of_facts rfl rfl⟩
  | cons entry rest ih =>
    obtain ⟨here,later⟩ := List.forall_mem_cons.mp active
    rw [List.foldlM_cons] at committed
    obtain ⟨next,m,first,tail⟩ := commits_bind.mp committed
    obtain ⟨id,m',inserted,last⟩ := commits_bind.mp first
    obtain ⟨rfl,rfl⟩ := commits_pure.mp last
    obtain ⟨fresh,grown,counted,arrives⟩ := ih later tail
    refine ⟨id :: fresh,by rw [grown,List.append_assoc]; rfl,by simp [counted],?_⟩
    have unexpired : ({ entry.1 with scope_id := entry.2 } : NewFact).t_expired = none := here
    exact (arrives_insert unexpired inserted).trans arrives

theorem perEntry_resolveEntry {acc acc' : Ingest.ResolvedScopes} {scope : Option String} {s t : Db}
    (committed : Commits (Ingest.resolveEntry acc scope) s acc' t) :
    acc'.per_entry.length = acc.per_entry.length + 1 ∧ Arrives [] s t := by
  cases scope with
  | none =>
    obtain ⟨rfl,rfl⟩ := commits_pure.mp committed
    exact ⟨by simp,Arrives.of_facts rfl rfl⟩
  | some path =>
    unfold Ingest.resolveEntry at committed
    dsimp only at committed
    split at committed
    · obtain ⟨rfl,rfl⟩ := commits_pure.mp committed
      exact ⟨by simp,Arrives.of_facts rfl rfl⟩
    · obtain ⟨id,_,ensured,last⟩ := commits_bind.mp committed
      obtain ⟨rfl,rfl⟩ := commits_pure.mp last
      exact ⟨by simp,arrives_ensure_path ensured⟩

/-- Every entry of a batch gets a scope. -/
theorem perEntry_resolveEntries {scope_paths : List (Option String)} {acc acc' : Ingest.ResolvedScopes} {s t : Db}
    (committed : Commits (scope_paths.foldlM Ingest.resolveEntry acc) s acc' t) :
    acc'.per_entry.length = acc.per_entry.length + scope_paths.length ∧ Arrives [] s t := by
  induction scope_paths generalizing acc s with
  | nil =>
    obtain ⟨rfl,rfl⟩ := commits_pure.mp committed
    exact ⟨rfl,Arrives.of_facts rfl rfl⟩
  | cons scope rest ih =>
    rw [List.foldlM_cons] at committed
    obtain ⟨next,m,first,tail⟩ := commits_bind.mp committed
    obtain ⟨one,here⟩ := perEntry_resolveEntry first
    obtain ⟨more,later⟩ := ih tail
    refine ⟨?_,here.trans later⟩
    rw [more,one,List.length_cons]
    omega

theorem arrives_batch {facts : List NewFact} {scope_paths : List (Option String)} {fingerprint : EmbeddingFingerprint}
    {expected_dim : Nat} {s t : Db} {r : List FactId × List Int} (active : ∀ fact ∈ facts, fact.t_expired = none)
    (committed : Commits (Ingest.insert_facts_batch_atomic self facts scope_paths fingerprint expected_dim) s r t) :
    r.1.length = facts.length ∧ Arrives (r.1.zip (facts.map NewFact.t_created)) s t := by
  obtain ⟨_,_,paired,stamping⟩ := commits_bind.mp committed
  obtain ⟨counted,rfl⟩ := commits_require.mp paired
  obtain ⟨_,m₁,stamped,resolving⟩ := commits_bind.mp stamping
  obtain ⟨resolved,m₂,looped,filling⟩ := commits_bind.mp resolving
  obtain ⟨ids,m₃,filled,last⟩ := commits_bind.mp filling
  obtain ⟨rfl,rfl⟩ := commits_pure.mp last
  obtain ⟨entered,created_scopes⟩ := perEntry_resolveEntries looped
  have lengths : facts.length = resolved.per_entry.length := by
    rw [entered,counted]
    simp
  have whole : (facts.zip resolved.per_entry).map Prod.fst = facts := List.map_fst_zip (le_of_eq lengths)
  have unexpired : ∀ entry ∈ facts.zip resolved.per_entry, entry.1.t_expired = none :=
    fun entry listed => active entry.1 (by rw [← whole]; exact List.mem_map_of_mem listed)
  have inserted := arrives_insertEntries unexpired filled
  obtain ⟨fresh,grown,sized,arrives⟩ := inserted
  rw [List.nil_append] at grown
  have created : (facts.zip resolved.per_entry).map (fun entry => entry.1.t_created) = facts.map NewFact.t_created := by
    conv_rhs => rw [← whole,List.map_map]
    rfl
  rw [created,← grown] at arrives
  refine ⟨?_,((arrives_record_if_absent stamped).trans created_scopes).trans arrives⟩
  rw [grown,sized,List.length_zip,← lengths,Nat.min_self]

theorem arrives_ingestFacts {marker_id : Option Int} {facts : List NewFact} {out out' : List (FactId × Bool)} {s t : Db}
    (active : ∀ fact ∈ facts, fact.t_expired = none) (committed : Commits (facts.foldlM (fun out fact => do
      let flag ← FactStore.insert_or_reinforce self (Bootstrap.linked marker_id fact)
      return out ++ [flag]) out) s out' t) :
    ∃ flags : List (FactId × Bool), out' = out ++ flags ∧ Arrives ((flags.map Prod.fst).zip (facts.map NewFact.t_created)) s t := by
  induction facts generalizing out s with
  | nil =>
    obtain ⟨rfl,rfl⟩ := commits_pure.mp committed
    exact ⟨[],by simp,Arrives.of_facts rfl rfl⟩
  | cons fact rest ih =>
    obtain ⟨here,later⟩ := List.forall_mem_cons.mp active
    rw [List.foldlM_cons] at committed
    obtain ⟨next,m,first,tail⟩ := commits_bind.mp committed
    obtain ⟨flag,m',stored,last⟩ := commits_bind.mp first
    obtain ⟨rfl,rfl⟩ := commits_pure.mp last
    obtain ⟨flags,grown,arrives⟩ := ih later tail
    have same : (Bootstrap.linked marker_id fact).t_expired = fact.t_expired ∧
        (Bootstrap.linked marker_id fact).t_created = fact.t_created := by
      cases marker_id <;> exact ⟨rfl,rfl⟩
    have one := arrives_insert_or_reinforce (same.1.trans here) stored
    rw [same.2] at one
    exact ⟨flag :: flags,by rw [grown,List.append_assoc]; rfl,one.trans arrives⟩

/-- The arrivals of a bootstrap batch, none where it was skipped. -/
def BootstrapIngestOutcome.arrivals (facts : List NewFact) : BootstrapIngestOutcome → List (FactId × DateTime)
  | Skipped => []
  | Ingested flags => (flags.map Prod.fst).zip (facts.map NewFact.t_created)

theorem arrives_ingestMarked {marker : Option NewEvent} {facts : List NewFact} {fingerprint : EmbeddingFingerprint} {expected_dim : Nat}
    {s t : Db} {outcome : BootstrapIngestOutcome} (active : ∀ fact ∈ facts, fact.t_expired = none)
    (committed : Commits (Bootstrap.ingestMarked self marker facts fingerprint expected_dim) s outcome t) :
    Arrives (outcome.arrivals facts) s t := by
  obtain ⟨marker_id,m₁,marked,ingesting⟩ := commits_bind.mp committed
  obtain ⟨out,m₂,ingested,stamping⟩ := commits_bind.mp ingesting
  obtain ⟨_,m₃,stamped,last⟩ := commits_bind.mp stamping
  obtain ⟨rfl,rfl⟩ := commits_pure.mp last
  have first : Arrives [] s m₁ := by
    cases marker with
    | none =>
      obtain ⟨_,rfl⟩ := commits_pure.mp marked
      exact Arrives.of_facts rfl rfl
    | some marker =>
      refine arrives_none (leaves_bind ?_ fun _ => leaves_pure _) marked
      exact leaves_bind leaves_query fun _ => leaves_bind (leaves_execute fun _ => rfl) fun _ => leaves_pure _
  obtain ⟨flags,grown,arrives⟩ := arrives_ingestFacts active ingested
  rw [List.nil_append] at grown
  have stamp : Arrives [] m₂ t := by
    rcases commits_guarded.mp stamped with ⟨_,recorded⟩ | ⟨_,rfl⟩
    · exact arrives_none (leaves_bind (EmbeddingMeta.leaves_record_if_absent _ (fun _ _ => rfl) _ _) fun _ => leaves_pure _) recorded
    · exact Arrives.of_facts rfl rfl
  rw [grown]
  have all := (first.trans arrives).trans stamp
  rwa [List.append_nil] at all

theorem arrives_bootstrap {marker : Option NewEvent} {skip_if_present : Option EventFilter} {facts : List NewFact}
    {fingerprint : EmbeddingFingerprint} {expected_dim : Nat} {s t : Db} {outcome : BootstrapIngestOutcome}
    (active : ∀ fact ∈ facts, fact.t_expired = none)
    (committed : Commits (Bootstrap.ingest_bootstrap_batch_atomic self marker skip_if_present facts fingerprint expected_dim) s outcome t) :
    Arrives (outcome.arrivals facts) s t := by
  unfold Bootstrap.ingest_bootstrap_batch_atomic at committed
  cases skip_if_present with
  | none => exact arrives_ingestMarked active committed
  | some filter =>
    obtain ⟨present,m,counted,rest⟩ := commits_bind.mp committed
    have unread : m = s := by
      obtain ⟨_,_,checked,queried⟩ := commits_bind.mp counted
      obtain ⟨_,rfl⟩ := commits_require.mp checked
      exact (commits_query.mp queried).2
    rw [unread] at rest
    split at rest
    · obtain ⟨rfl,rfl⟩ := commits_pure.mp rest
      exact Arrives.of_facts rfl rfl
    · exact arrives_ingestMarked active rest

end statements
end MemoryEngine
