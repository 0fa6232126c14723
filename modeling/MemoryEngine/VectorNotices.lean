import MemoryEngine.Arrivals
import MemoryEngine.CycleOutcome
import MemoryEngine.Fingerprint
import MemoryEngine.Planning
import MemoryEngine.Prune
import MemoryEngine.Stamping
import MemoryEngine.VectorIndex

/-! What each call of the storage port tells the vector index once its transaction has been
committed, against the vectors that the transaction put into the facts table. -/

namespace MemoryEngine
open Time KeyedTable Transaction Dedup

/-- The vectors in the facts table, by fact. -/
def Tables.vectors (t : Tables) : List (FactId × Embedding) := t.facts.rows.map fun f => (f.id,f.embedding)

section vectors
variable {self : SqliteBackend}

theorem leaves_vectors {α : Type} {x : Sql α} (leaves : Leaves Tables.facts x) : Leaves Tables.vectors x := by
  intro s a t committed
  unfold Tables.vectors
  rw [leaves s a t committed]

theorem vectors_update (t : Tables) {sel : Fact → Bool} {change : Fact → Fact} {same : ∀ f, (change f).id = f.id}
    (kept : ∀ f, (change f).embedding = f.embedding) : ({ t with facts := t.facts.update sel change same } : Tables).vectors = t.vectors := by
  unfold Tables.vectors
  rw [Table.update_rows,List.map_map]
  refine List.map_congr_left fun f _ => ?_
  rw [Function.comp_apply]
  split
  · rw [same,kept]
  · rfl

namespace FactStore

theorem vectors_insert {fact : NewFact} {s t : Db} {id : FactId} (committed : Commits (insert self fact) s id t) :
    t.vectors = s.vectors ++ [(id,fact.embedding)] := by
  obtain ⟨_,importance,_,rfl,written⟩ := commits_insert.mp committed
  unfold Tables.vectors
  rw [written,Table.insert_rows,List.map_append]
  rfl

theorem leaves_updateActive {id : FactId} {change : Fact → Fact} {same : ∀ f, (change f).id = f.id}
    (kept : ∀ f, (change f).embedding = f.embedding) : Leaves Tables.vectors (updateActive id change same) := by
  intro s u t committed
  rw [(commits_updateActive.mp committed).2]
  exact vectors_update _ kept

theorem leaves_updateRow {id : FactId} {change : Fact → Fact} {same : ∀ f, (change f).id = f.id}
    (kept : ∀ f, (change f).embedding = f.embedding) : Leaves Tables.vectors (updateRow id change same) := by
  intro s u t committed
  rw [(commits_updateRow.mp committed).2]
  exact vectors_update _ kept

theorem leaves_expire (id : FactId) (now : DateTime) : Leaves Tables.vectors (expire id now) := leaves_updateActive fun _ => rfl

theorem leaves_expire_and_invalidate (id : FactId) (now : DateTime) : Leaves Tables.vectors (expire_and_invalidate id now) :=
  leaves_updateActive fun _ => rfl

theorem leaves_update_base_importance (id : FactId) (base_importance : F64) : Leaves Tables.vectors (update_base_importance id base_importance) := by
  cases base_importance with
  | nan =>
    refine leaves_bind leaves_query fun found => ?_
    split <;> exact leaves_throw _
  | num importance => exact leaves_updateRow fun _ => rfl

theorem leaves_merge_metadata (id : FactId) (fields : List (String × Json)) : Leaves Tables.vectors (merge_metadata id (.obj fields)) := by
  intro s u t committed
  rw [(commits_merge_metadata.mp committed).2]
  exact vectors_update _ fun _ => rfl

theorem leaves_mark_dream_cycled (ids : List FactId) (cycle_id : Nat) (now : DateTime) : Leaves Tables.vectors (mark_dream_cycled ids cycle_id now) :=
  leaves_foldlM (fun _ id => leaves_merge_metadata id _) ids ()

theorem leaves_update_importance_scores_bulk (scores : List (FactId × F64)) : Leaves Tables.vectors (update_importance_scores_bulk self scores) := by
  unfold update_importance_scores_bulk
  split
  · exact leaves_throw _
  · refine leaves_execute fun t => vectors_update t fun f => ?_
    unfold setScore
    split <;> rfl

theorem leaves_reinforce (fact : NewFact) (id : FactId) : Leaves Tables.vectors (reinforce fact id) := by
  unfold reinforce
  split
  · exact leaves_throw _
  · refine leaves_execute fun t => vectors_update t fun f => ?_
    simp only [reinforced]

/-- A reinforcement brings no vector. -/
theorem vectors_insert_or_reinforce {fact : NewFact} {s t : Db} {flag : FactId × Bool}
    (committed : Commits (insert_or_reinforce self fact) s flag t) :
    t.vectors = s.vectors ++ if flag.2 then [] else [(flag.1,fact.embedding)] := by
  obtain ⟨_,_,sized,looking⟩ := commits_bind.mp committed
  obtain ⟨_,rfl⟩ := commits_require.mp sized
  obtain ⟨found,_,looked,rest⟩ := commits_bind.mp looking
  obtain ⟨rfl,rfl⟩ := commits_query.mp looked
  split at rest
  · obtain ⟨_,m,reinforced,last⟩ := commits_bind.mp rest
    obtain ⟨rfl,rfl⟩ := commits_pure.mp last
    rw [leaves_reinforce fact _ _ _ _ reinforced]
    exact (List.append_nil _).symm
  · obtain ⟨id,m,inserted,last⟩ := commits_bind.mp rest
    obtain ⟨rfl,rfl⟩ := commits_pure.mp last
    exact vectors_insert inserted

end FactStore

theorem EdgeStore.leaves_expire_by_fact (fact_id : FactId) (now : DateTime) : Leaves Tables.vectors (EdgeStore.expire_by_fact fact_id now) := by
  intro s n t committed
  rw [(EdgeStore.commits_expire_by_fact.mp committed).2]
  rfl

theorem EdgeStore.leaves_insert (edge : NewEdge) : Leaves Tables.vectors (EdgeStore.insert edge) := by
  intro s id t committed
  obtain ⟨_,_,_,written⟩ := EdgeStore.commits_insert.mp committed
  rw [written]
  rfl

namespace Ingest

theorem vectors_insert_fact_atomic {fact : NewFact} {fingerprint : EmbeddingFingerprint} {expected_dim : Nat} {s t : Db} {id : FactId}
    (committed : Commits (insert_fact_atomic self fact fingerprint expected_dim) s id t) : t.vectors = s.vectors ++ [(id,fact.embedding)] := by
  obtain ⟨_,m,stamped,inserted⟩ := commits_bind.mp committed
  rw [FactStore.vectors_insert inserted,EmbeddingMeta.leaves_record_if_absent Tables.vectors (fun _ _ => rfl) _ _ _ _ _ stamped]

theorem vectors_insertEntries {entries : List (NewFact × Int)} {ids ids' : List FactId} {s t : Db}
    (committed : Commits (entries.foldlM (fun ids entry => do
      let id ← FactStore.insert self { entry.1 with scope_id := entry.2 }
      return ids ++ [id]) ids) s ids' t) :
    ∃ fresh : List FactId, ids' = ids ++ fresh ∧ t.vectors = s.vectors ++ fresh.zip (entries.map fun entry => entry.1.embedding) := by
  induction entries generalizing ids s with
  | nil =>
    obtain ⟨rfl,rfl⟩ := commits_pure.mp committed
    exact ⟨[],by simp,by simp⟩
  | cons entry rest ih =>
    rw [List.foldlM_cons] at committed
    obtain ⟨next,m,first,tail⟩ := commits_bind.mp committed
    obtain ⟨id,m',inserted,last⟩ := commits_bind.mp first
    obtain ⟨rfl,rfl⟩ := commits_pure.mp last
    obtain ⟨fresh,grown,vectors⟩ := ih tail
    refine ⟨id :: fresh,by rw [grown,List.append_assoc]; rfl,?_⟩
    rw [vectors,FactStore.vectors_insert inserted,List.append_assoc]
    rfl

theorem vectors_batch {facts : List NewFact} {scope_paths : List (Option String)} {fingerprint : EmbeddingFingerprint}
    {expected_dim : Nat} {s t : Db} {r : List FactId × List Int}
    (committed : Commits (insert_facts_batch_atomic self facts scope_paths fingerprint expected_dim) s r t) :
    t.vectors = s.vectors ++ r.1.zip (facts.map NewFact.embedding) := by
  obtain ⟨_,_,paired,stamping⟩ := commits_bind.mp committed
  obtain ⟨counted,rfl⟩ := commits_require.mp paired
  obtain ⟨_,m₁,stamped,resolving⟩ := commits_bind.mp stamping
  obtain ⟨resolved,m₂,looped,filling⟩ := commits_bind.mp resolving
  obtain ⟨ids,m₃,filled,last⟩ := commits_bind.mp filling
  obtain ⟨rfl,rfl⟩ := commits_pure.mp last
  have lengths : facts.length = resolved.per_entry.length := by
    rw [(perEntry_resolveEntries looped).1,counted]
    simp
  have whole : (facts.zip resolved.per_entry).map Prod.fst = facts := List.map_fst_zip (le_of_eq lengths)
  obtain ⟨fresh,grown,vectors⟩ := vectors_insertEntries filled
  rw [List.nil_append] at grown
  have embeddings : (facts.zip resolved.per_entry).map (fun entry => entry.1.embedding) = facts.map NewFact.embedding := by
    conv_rhs => rw [← whole,List.map_map]
    rfl
  rw [vectors,embeddings,grown,leaves_resolveEntries Tables.vectors (fun _ _ => rfl) _ _ _ _ _ looped,
    EmbeddingMeta.leaves_record_if_absent Tables.vectors (fun _ _ => rfl) _ _ _ _ _ stamped]

theorem vectors_promote_atomic {fact : NewFact} {scope_path : Option String} {source_fact_ids : List FactId} {provenance : PromotionProvenance}
    {s t : Db} {r : PromotionResult × List Int} (committed : Commits (promote_atomic self fact scope_path source_fact_ids provenance) s r t) :
    t.vectors = s.vectors ++ [(r.1.fact_id,fact.embedding)] := by
  obtain ⟨_,m,present,scoping⟩ := commits_bind.mp committed
  obtain ⟨scope,m₁,resolved,inserting⟩ := commits_bind.mp scoping
  obtain ⟨fact_id,m₂,inserted,recording⟩ := commits_bind.mp inserting
  obtain ⟨lineage_id,m₃,recorded,last⟩ := commits_bind.mp recording
  obtain ⟨rfl,rfl⟩ := commits_pure.mp last
  have scopes : Leaves Tables.vectors (promotedScope scope_path) := by
    cases scope_path with
    | none => exact leaves_pure _
    | some path => exact leaves_bind (leaves_ensure_path (fun _ _ => rfl) path) fun _ => leaves_pure _
  rw [LineageStore.leaves_insert Tables.vectors (fun _ _ => rfl) _ _ _ _ _ recorded,FactStore.vectors_insert inserted,scopes _ _ _ resolved,
    EmbeddingMeta.leaves_require_present Tables.vectors _ _ _ present]

end Ingest

namespace Resolve

theorem leaves_cascade_expire (old_id : FactId) (now : DateTime) : Leaves Tables.vectors (cascade_expire old_id now) :=
  leaves_bind (FactStore.leaves_expire_and_invalidate old_id now) fun _ =>
    leaves_bind (EdgeStore.leaves_expire_by_fact old_id now) fun _ => leaves_pure _

theorem vectors_insertLinked {old_id : FactId} {new_fact : NewFact} {relation : String} {weight : F64} {now : DateTime} {s t : Db}
    {r : Option FactId × Option Int} (committed : Commits (insertLinked self old_id new_fact relation weight now) s r t) :
    t.vectors = s.vectors ++ r.1.toList.map fun id => (id,new_fact.embedding) := by
  obtain ⟨new_id,m,inserted,linking⟩ := commits_bind.mp committed
  obtain ⟨edge_id,m',linked,last⟩ := commits_bind.mp linking
  obtain ⟨rfl,rfl⟩ := commits_pure.mp last
  rw [EdgeStore.leaves_insert _ _ _ _ linked,FactStore.vectors_insert inserted]
  rfl

theorem vectors_resolve_conflict_atomic {decision : CrudDecision} {old_id : FactId} {new_fact : NewFact} {relation : String} {weight : F64}
    {now : DateTime} {s t : Db} {r : Option FactId × Option Int}
    (committed : Commits (resolve_conflict_atomic self decision old_id new_fact relation weight now) s r t) :
    t.vectors = s.vectors ++ r.1.toList.map fun id => (id,new_fact.embedding) := by
  cases decision with
  | Noop =>
    obtain ⟨rfl,rfl⟩ := commits_pure.mp committed
    exact (List.append_nil _).symm
  | Add =>
    obtain ⟨_,m,looked,rest⟩ := commits_bind.mp committed
    obtain ⟨_,m',required,linking⟩ := commits_bind.mp rest
    obtain ⟨_,rfl⟩ := FactStore.commits_is_active.mp looked
    obtain ⟨_,rfl⟩ := commits_require.mp required
    exact vectors_insertLinked linking
  | Update =>
    obtain ⟨_,m,cascaded,linking⟩ := commits_bind.mp committed
    rw [vectors_insertLinked linking,leaves_cascade_expire _ _ _ _ _ cascaded]
  | Delete =>
    obtain ⟨_,m,cascaded,last⟩ := commits_bind.mp committed
    obtain ⟨rfl,rfl⟩ := commits_pure.mp last
    rw [leaves_cascade_expire _ _ _ _ _ cascaded]
    exact (List.append_nil _).symm

end Resolve

namespace Forget

theorem leaves_prune_atomic (scored : List (FactId × F64)) (to_expire : List FactId) (now : DateTime) :
    Leaves Tables.vectors (prune_atomic self scored to_expire now) := by
  refine leaves_bind (FactStore.leaves_update_importance_scores_bulk scored) fun _ => leaves_bind ?_ fun _ => leaves_pure _
  refine leaves_foldlM (fun _ id => ?_) to_expire ()
  exact leaves_bind (FactStore.leaves_expire id now) fun _ => leaves_bind (EdgeStore.leaves_expire_by_fact id now) fun _ => leaves_pure _

end Forget

namespace Consolidate

theorem leaves_applyExpiry (survivor_live : FactId → Bool) (now : DateTime) (acc : DedupApplied) (e : Expiry) :
    Leaves Tables.vectors (applyExpiry survivor_live now acc e) := by
  unfold applyExpiry
  split
  · refine leaves_bind (leaves_attempt (FactStore.leaves_expire e.loser now)) fun r => ?_
    split
    · exact leaves_bind (EdgeStore.leaves_expire_by_fact e.loser now) fun _ => leaves_pure _
    · exact leaves_pure _
    · exact leaves_throw _
  · exact leaves_pure _

theorem leaves_apply_plan (plan : ConsolidationPlan) : Leaves Tables.vectors (apply_plan self plan) := by
  intro s r t committed
  obtain ⟨⟨applied,m,deduplicated,same⟩,_⟩ := commits_apply_plan committed
  have dedup : Leaves Tables.vectors (apply_dedup self plan.dedup plan.now) := by
    refine leaves_bind (leaves_foldlM (fun _ update => FactStore.leaves_update_base_importance _ _) _ _) fun _ => ?_
    refine leaves_bind (FactStore.leaves_update_importance_scores_bulk _) fun _ => leaves_bind leaves_query fun live => ?_
    exact leaves_foldlM (leaves_applyExpiry live plan.now) _ _
  have facts : t.vectors = m.vectors := by
    unfold Tables.vectors
    rw [same]
  exact facts.trans (dedup _ _ _ deduplicated)

end Consolidate

end vectors

/-- Ids that were handed out to facts that are no longer active. -/
def Cold (ids : List FactId) (t : Tables) : Prop := ∀ id ∈ ids, id ≤ t.facts.seq ∧ ¬ t.IsActive id

section expiries
variable {self : SqliteBackend}

theorem ages_of_makes {α : Type} {embed_dim expected_dim : Nat} {x : Sql α} (makes : Makes embed_dim expected_dim x) {s t : Db} {a : α}
    (committed : Commits x s a t) : s.toTables.Ages t.toTables := .of_changes (makes s a t committed)

/-- An expiry is never taken back. -/
theorem Cold.later {ids : List FactId} {s t : Tables} (cold : Cold ids s) (ages : s.Ages t) : Cold ids t := by
  intro id listed
  obtain ⟨low,inactive⟩ := cold id listed
  refine ⟨low.trans ages.facts.seq,?_⟩
  rintro ⟨f,member,rfl,active⟩
  obtain ⟨before,held,same,later⟩ := ages.facts.old f member low
  exact inactive ⟨before,held,same,later active⟩

theorem Cold.append {ids ids' : List FactId} {t : Tables} (left : Cold ids t) (right : Cold ids' t) : Cold (ids ++ ids') t := by
  intro id listed
  rcases List.mem_append.mp listed with first | second
  · exact left id first
  · exact right id second

theorem cold_of_expires {ids : List FactId} {s t : Db} (expires : Expires ids s t) (ages : s.toTables.Ages t.toTables) : Cold ids t.toTables := by
  intro id listed
  obtain ⟨f,member,same,_⟩ := expires.before id listed
  refine ⟨?_,fun active => ((expires.after id).mp active).2 listed⟩
  rw [← same]
  exact (s.facts.allocated f member).trans ages.facts.seq

theorem cold_updateActive {id : FactId} {change : Fact → Fact} {same : ∀ f, (change f).id = f.id} (ends : ∀ f, (change f).t_expired ≠ none)
    {s t : Db} {u : Unit} (committed : Commits (FactStore.updateActive id change same) s u t) : Cold [id] t.toTables := by
  obtain ⟨⟨f,member,here,_⟩,written⟩ := FactStore.commits_updateActive.mp committed
  intro other listed
  obtain rfl := List.mem_singleton.mp listed
  refine ⟨?_,?_⟩
  · rw [written,← here]
    exact s.facts.allocated f member
  · rw [isActive_update written]
    rintro ⟨g,held,rfl,active⟩
    by_cases chosen : (g.id == g.id && g.t_expired.isNone) = true
    · rw [if_pos chosen] at active
      exact ends g active
    · rw [if_neg chosen] at active
      exact chosen (by simp [active])

theorem cold_expire {id : FactId} {now : DateTime} {s t : Db} {u : Unit} (committed : Commits (FactStore.expire id now) s u t) :
    Cold [id] t.toTables := cold_updateActive (fun _ => Option.some_ne_none now) committed

theorem cold_cascade_expire {old_id : FactId} {now : DateTime} {s t : Db} {u : Unit}
    (committed : Commits (Resolve.cascade_expire old_id now) s u t) : Cold [old_id] t.toTables := by
  obtain ⟨_,m,expired,rest⟩ := commits_bind.mp committed
  obtain ⟨n,m',cascaded,last⟩ := commits_bind.mp rest
  obtain ⟨_,rfl⟩ := commits_pure.mp last
  have cold : Cold [old_id] m.toTables := cold_updateActive (fun _ => Option.some_ne_none now) expired
  exact cold.later (ages_of_makes (EdgeStore.makes_expire_by_fact old_id now : Makes 0 0 _) cascaded)

theorem cold_apply_plan {plan : ConsolidationPlan} {s t : Db} {r : ConsolidationStats × List FactId}
    (committed : Commits (Consolidate.apply_plan self plan) s r t) : Cold r.2 t.toTables := by
  obtain ⟨applied,m,deduplicated,rest⟩ := commits_bind.mp committed
  have closing : m.toTables.Ages t.toTables ∧ r.2 = applied.expired := by
    obtain ⟨_,m₁,summarized,rest⟩ := commits_bind.mp rest
    obtain ⟨_,m₂,dated,last⟩ := commits_bind.mp rest
    obtain ⟨rfl,rfl⟩ := commits_pure.mp last
    have first : m.toTables.Ages m₁.toTables := ages_of_makes (makes_guarded (Consolidate.makes_write_summaries self plan)) summarized
    have second : m₁.toTables.Ages t.toTables :=
      ages_of_makes (makes_guarded (Config.makes_set_config _ _) : Makes 0 0 _) dated
    exact ⟨first.trans second,rfl⟩
  obtain ⟨_,m₁,updated,rest⟩ := commits_bind.mp deduplicated
  obtain ⟨_,m₂,scored,rest⟩ := commits_bind.mp rest
  obtain ⟨live,m₃,looked,looping⟩ := commits_bind.mp rest
  obtain ⟨ran,_,_,grown,expires⟩ := expires_expirations looping
  rw [List.nil_append] at grown
  rw [closing.2,grown]
  have loop : m₃.toTables.Ages m.toTables :=
    ages_of_makes (makes_foldlM (Consolidate.makes_applyExpiry live plan.now) _ _ : Makes 0 0 _) looping
  exact (cold_of_expires expires loop).later closing.1

end expiries

namespace Cycle
variable {self : SqliteBackend}

/-- What a part of an apply pass has put into the accumulators is what it did to the facts. -/
structure Accounts (pass pass' : ApplyPass) (s t : Db) : Prop where
  vectors : ∃ news, pass'.to_index = pass.to_index ++ news ∧ t.vectors = s.vectors ++ news
  expired : ∃ gone, pass'.expired_ids = pass.expired_ids ++ gone ∧ Cold gone t.toTables
  ages : s.toTables.Ages t.toTables

theorem Accounts.trans {pass pass' pass'' : ApplyPass} {s m t : Db} (first : Accounts pass pass' s m) (second : Accounts pass' pass'' m t) :
    Accounts pass pass'' s t := by
  obtain ⟨news,grown,vectors⟩ := first.vectors
  obtain ⟨news',grown',vectors'⟩ := second.vectors
  obtain ⟨gone,expired,cold⟩ := first.expired
  obtain ⟨gone',expired',cold'⟩ := second.expired
  refine ⟨⟨news ++ news',?_,?_⟩,⟨gone ++ gone',?_,(cold.later second.ages).append cold'⟩,first.ages.trans second.ages⟩
  · rw [grown',grown,List.append_assoc]
  · rw [vectors',vectors,List.append_assoc]
  · rw [expired',expired,List.append_assoc]

/-- A part that touches neither vectors nor the two accumulators. -/
theorem accounts_quiet {pass pass' : ApplyPass} {s t : Db} (ages : s.toTables.Ages t.toTables) (vectors : t.vectors = s.vectors)
    (index : pass'.to_index = pass.to_index) (expired : pass'.expired_ids = pass.expired_ids) : Accounts pass pass' s t :=
  ⟨⟨[],by rw [index,List.append_nil],by rw [vectors,List.append_nil]⟩,⟨[],by rw [expired,List.append_nil],fun _ listed => absurd listed List.not_mem_nil⟩,ages⟩

theorem accounts_supersede {now : DateTime} {new_id old_id scope_id : Int} {pass pass' : ApplyPass} {s t : Db}
    (committed : Commits (supersede now new_id old_id scope_id pass) s pass' t) : Accounts pass pass' s t := by
  have ages : s.toTables.Ages t.toTables := ages_of_makes (makes_supersede now new_id old_id scope_id pass : Makes 0 0 _) committed
  obtain ⟨_,m,expired,rest⟩ := commits_bind.mp committed
  obtain ⟨edge_id,m',inserted,last⟩ := commits_bind.mp rest
  obtain ⟨rfl,rfl⟩ := commits_pure.mp last
  have later : m.toTables.Ages t.toTables := ages_of_makes (EdgeStore.makes_insert _ : Makes 0 0 _) inserted
  refine ⟨⟨[],(List.append_nil _).symm,?_⟩,⟨[old_id],rfl,(cold_expire expired).later later⟩,ages⟩
  rw [EdgeStore.leaves_insert _ _ _ _ inserted,FactStore.leaves_expire _ _ _ _ _ expired,List.append_nil]

/-- A synthesis goes through its sources, each of which its fact supersedes. -/
theorem accounts_sources {now : DateTime} {synth_id scope_id : Int} {sources : List FactId} {acc acc' : ApplyPass × Option (DateTime × DateTime)}
    {s t : Db} (committed : Commits (sources.foldlM (synthesizeSource self now synth_id scope_id) acc) s acc' t) :
    Accounts acc.1 acc'.1 s t ∧ acc'.1.to_index = acc.1.to_index := by
  induction sources generalizing acc s with
  | nil =>
    obtain ⟨rfl,rfl⟩ := commits_pure.mp committed
    exact ⟨accounts_quiet (.refl _) rfl rfl rfl,rfl⟩
  | cons src rest ih =>
    rw [List.foldlM_cons] at committed
    obtain ⟨next,m,first,tail⟩ := commits_bind.mp committed
    obtain ⟨src_fact,m',got,superseding⟩ := commits_bind.mp first
    obtain ⟨_,_,rfl⟩ := FactStore.commits_get.mp got
    obtain ⟨pass,m'',superseded,last⟩ := commits_bind.mp superseding
    obtain ⟨rfl,rfl⟩ := commits_pure.mp last
    obtain ⟨accounts,kept⟩ := ih tail
    refine ⟨(accounts_supersede superseded).trans accounts,kept.trans ?_⟩
    obtain ⟨_,_,expired,linking⟩ := commits_bind.mp superseded
    obtain ⟨_,_,linked,closed⟩ := commits_bind.mp linking
    rw [(commits_pure.mp closed).1]

theorem accounts_applyDelta {now : DateTime} {pass pass' : ApplyPass} {delta : CycleDelta} {s t : Db}
    (committed : Commits (applyDelta self now pass delta) s pass' t) : Accounts pass pass' s t := by
  have ages : s.toTables.Ages t.toTables := ages_of_makes (makes_applyDelta self now pass delta : Makes self.embed_dim 0 _) committed
  cases delta with
  | AddFact nf =>
    obtain ⟨id,m,inserted,last⟩ := commits_bind.mp committed
    obtain ⟨rfl,rfl⟩ := commits_pure.mp last
    exact ⟨⟨_,rfl,FactStore.vectors_insert inserted⟩,⟨[],(List.append_nil _).symm,fun _ listed => absurd listed List.not_mem_nil⟩,ages⟩
  | AdjustScore fact_id adjustment =>
    obtain ⟨current,m,got,rest⟩ := commits_bind.mp committed
    obtain ⟨_,_,rfl⟩ := FactStore.commits_get.mp got
    obtain ⟨_,m',updated,last⟩ := commits_bind.mp rest
    obtain ⟨rfl,rfl⟩ := commits_pure.mp last
    exact accounts_quiet ages (FactStore.leaves_update_base_importance _ _ _ _ _ updated) rfl rfl
  | Quarantine fact_id reason =>
    obtain ⟨_,m,expired,rest⟩ := commits_bind.mp committed
    obtain ⟨_,m',merged,last⟩ := commits_bind.mp rest
    obtain ⟨rfl,rfl⟩ := commits_pure.mp last
    have later : m.toTables.Ages t.toTables := ages_of_makes (FactStore.makes_merge_metadata _ _ : Makes 0 0 _) merged
    refine ⟨⟨[],(List.append_nil _).symm,?_⟩,⟨[fact_id],rfl,(cold_expire expired).later later⟩,ages⟩
    rw [FactStore.leaves_merge_metadata _ _ _ _ _ merged,FactStore.leaves_expire _ _ _ _ _ expired,List.append_nil]
  | Promote fact_id provenance =>
    obtain ⟨source,m,got,checking⟩ := commits_bind.mp committed
    obtain ⟨_,_,rfl⟩ := FactStore.commits_get.mp got
    obtain ⟨_,m₁,sized,guarding⟩ := commits_bind.mp checking
    obtain ⟨_,rfl⟩ := commits_require.mp sized
    obtain ⟨_,m₂,present,inserting⟩ := commits_bind.mp guarding
    obtain ⟨promoted_id,m₃,inserted,recording⟩ := commits_bind.mp inserting
    obtain ⟨_,m₄,recorded,last⟩ := commits_bind.mp recording
    obtain ⟨rfl,rfl⟩ := commits_pure.mp last
    refine ⟨⟨_,rfl,?_⟩,⟨[],(List.append_nil _).symm,fun _ listed => absurd listed List.not_mem_nil⟩,ages⟩
    rw [LineageStore.leaves_insert Tables.vectors (fun _ _ => rfl) _ _ _ _ _ recorded,FactStore.vectors_insert inserted,
      EmbeddingMeta.leaves_require_present Tables.vectors _ _ _ present]
    rfl
  | TagOutcome fact_id outcome =>
    obtain ⟨_,m,tagged,last⟩ := commits_bind.mp committed
    obtain ⟨rfl,rfl⟩ := commits_pure.mp last
    have facts := (EventStore.keepsCore_insert self _ _ _ _ tagged).1
    refine accounts_quiet ages ?_ rfl rfl
    unfold Tables.vectors
    rw [facts]
  | Supersede old_id new_id =>
    obtain ⟨new_fact,m,got,rest⟩ := commits_bind.mp committed
    obtain ⟨_,_,rfl⟩ := FactStore.commits_get.mp got
    obtain ⟨next,m',superseded,last⟩ := commits_bind.mp rest
    obtain ⟨rfl,rfl⟩ := commits_pure.mp last
    have one := accounts_supersede superseded
    exact ⟨one.vectors,one.expired,one.ages⟩
  | Synthesize sources new_fact =>
    obtain ⟨synth_id,m,inserted,rest⟩ := commits_bind.mp committed
    obtain ⟨last_pass,m',superseded,rest⟩ := commits_bind.mp rest
    obtain ⟨_,m'',recorded,last⟩ := commits_bind.mp rest
    obtain ⟨rfl,rfl⟩ := commits_pure.mp last
    obtain ⟨loop,index⟩ := accounts_sources superseded
    obtain ⟨gone,expired,cold⟩ := loop.expired
    obtain ⟨news,grown,vectors⟩ := loop.vectors
    rw [index,List.self_eq_append_right] at grown
    have later : m'.toTables.Ages t.toTables := ages_of_makes (LineageStore.makes_insert _ _ : Makes 0 0 _) recorded
    refine ⟨⟨[(synth_id,new_fact.embedding)],by rw [← index],?_⟩,⟨gone,expired,cold.later later⟩,ages⟩
    rw [LineageStore.leaves_insert Tables.vectors (fun _ _ => rfl) _ _ _ _ _ recorded,vectors,grown,List.append_nil,FactStore.vectors_insert inserted]

theorem accounts_deltas {now : DateTime} {deltas : List CycleDelta} {pass pass' : ApplyPass} {s t : Db}
    (committed : Commits (deltas.foldlM (applyDelta self now) pass) s pass' t) : Accounts pass pass' s t := by
  induction deltas generalizing pass s with
  | nil =>
    obtain ⟨rfl,rfl⟩ := commits_pure.mp committed
    exact accounts_quiet (.refl _) rfl rfl rfl
  | cons delta rest ih =>
    rw [List.foldlM_cons] at committed
    obtain ⟨next,m,first,tail⟩ := commits_bind.mp committed
    exact (accounts_applyDelta first).trans (ih tail)

/-- A report: what is to be indexed are the vectors it brought, and what is to be dropped is
    no longer active. -/
theorem accounts_apply_cycle_deltas_atomic {codec : HistoryCodec} {report : CycleReport} {now : DateTime} {s t : Db} {pass : ApplyPass}
    (committed : Commits (apply_cycle_deltas_atomic self codec report now) s pass t) :
    t.vectors = s.vectors ++ pass.to_index ∧ Cold pass.expired_ids t.toTables := by
  obtain ⟨m,m',m'',_,_,applied,marked,dated,appended⟩ := commits_report.mp committed
  have accounts := accounts_deltas applied
  obtain ⟨news,grown,vectors⟩ := accounts.vectors
  obtain ⟨gone,expired,cold⟩ := accounts.expired
  have marking : m.toTables.Ages m'.toTables := ages_of_makes (FactStore.makes_mark_dream_cycled _ _ _ : Makes 0 0 _) marked
  have facts : t.facts = m'.facts := by
    rw [leaves_append_cycle_history _ _ m'' () t appended,commits_execute.mp dated]
  have closing : m'.toTables.Ages t.toTables :=
    (ages_of_makes (Config.makes_set_config _ _ : Makes 0 0 _) dated).trans (ages_of_makes (makes_append_cycle_history _ _ : Makes 0 0 _) appended)
  rw [List.nil_append] at grown expired
  rw [grown,expired]
  refine ⟨?_,(cold.later marking).later closing⟩
  rw [← vectors,← FactStore.leaves_mark_dream_cycled _ _ _ _ _ _ marked]
  unfold Tables.vectors
  rw [facts]

end Cycle

namespace Bootstrap
variable {self : SqliteBackend}

theorem vectors_ingestFacts {marker_id : Option Int} {facts : List NewFact} {out out' : List (FactId × Bool)} {s t : Db}
    (committed : Commits (facts.foldlM (fun out fact => do
      let flag ← FactStore.insert_or_reinforce self (linked marker_id fact)
      return out ++ [flag]) out) s out' t) :
    ∃ news : List (FactId × Embedding), t.vectors = s.vectors ++ news ∧ ∀ entry ∈ news, entry.2 ∈ facts.map NewFact.embedding := by
  induction facts generalizing out s with
  | nil =>
    obtain ⟨_,rfl⟩ := commits_pure.mp committed
    exact ⟨[],(List.append_nil _).symm,fun _ listed => absurd listed List.not_mem_nil⟩
  | cons fact rest ih =>
    rw [List.foldlM_cons] at committed
    obtain ⟨next,m,first,tail⟩ := commits_bind.mp committed
    obtain ⟨flag,_,stored,closed⟩ := commits_bind.mp first
    obtain ⟨rfl,rfl⟩ := commits_pure.mp closed
    obtain ⟨news,vectors,given⟩ := ih tail
    refine ⟨(if flag.2 then [] else [(flag.1,(linked marker_id fact).embedding)]) ++ news,?_,fun entry listed => ?_⟩
    · rw [vectors,FactStore.vectors_insert_or_reinforce stored,List.append_assoc]
    · rcases List.mem_append.mp listed with here | later
      · have vector : (linked marker_id fact).embedding = fact.embedding := by
          cases marker_id <;> rfl
        split at here
        · cases here
        · rw [List.mem_singleton.mp here]
          exact List.mem_cons.mpr (.inl vector)
      · exact List.mem_cons_of_mem _ (given entry later)

/-- A batch brings vectors to new facts only. -/
theorem vectors_ingest_bootstrap_batch_atomic {marker : Option NewEvent} {skip_if_present : Option EventFilter} {facts : List NewFact}
    {fingerprint : EmbeddingFingerprint} {expected_dim : Nat} {s t : Db} {outcome : BootstrapIngestOutcome}
    (committed : Commits (ingest_bootstrap_batch_atomic self marker skip_if_present facts fingerprint expected_dim) s outcome t) :
    ∃ news : List (FactId × Embedding), t.vectors = s.vectors ++ news ∧ ∀ entry ∈ news, entry.2 ∈ facts.map NewFact.embedding := by
  have ingested : ∀ {m : Db}, Commits (ingestMarked self marker facts fingerprint expected_dim) m outcome t →
      ∃ news : List (FactId × Embedding), t.vectors = m.vectors ++ news ∧ ∀ entry ∈ news, entry.2 ∈ facts.map NewFact.embedding := by
    intro m committed
    obtain ⟨marker_id,m₁,marked,ingesting⟩ := commits_bind.mp committed
    obtain ⟨out,m₂,ingested,stamping⟩ := commits_bind.mp ingesting
    obtain ⟨_,m₃,stamped,last⟩ := commits_bind.mp stamping
    obtain ⟨rfl,rfl⟩ := commits_pure.mp last
    have first : m₁.vectors = m.vectors := by
      cases marker with
      | none =>
        obtain ⟨_,rfl⟩ := commits_pure.mp marked
        rfl
      | some marker =>
        obtain ⟨id,m',inserted,last⟩ := commits_bind.mp marked
        obtain ⟨_,rfl⟩ := commits_pure.mp last
        unfold Tables.vectors
        rw [(EventStore.keepsCore_insert self _ _ _ _ inserted).1]
    have stamp : t.vectors = m₂.vectors := by
      rcases commits_guarded.mp stamped with ⟨_,recorded⟩ | ⟨_,rfl⟩
      · exact leaves_bind (EmbeddingMeta.leaves_record_if_absent _ (fun _ _ => rfl) _ _) (fun _ => leaves_pure _) _ _ _ recorded
      · rfl
    obtain ⟨news,vectors,given⟩ := vectors_ingestFacts ingested
    exact ⟨news,by rw [stamp,vectors,first],given⟩
  unfold ingest_bootstrap_batch_atomic at committed
  cases skip_if_present with
  | none => exact ingested committed
  | some filter =>
    obtain ⟨present,m,counted,rest⟩ := commits_bind.mp committed
    obtain ⟨_,m',checked,queried⟩ := commits_bind.mp counted
    obtain ⟨_,rfl⟩ := commits_require.mp checked
    obtain ⟨_,rfl⟩ := commits_query.mp queried
    split at rest
    · obtain ⟨_,rfl⟩ := commits_pure.mp rest
      exact ⟨[],(List.append_nil _).symm,fun _ listed => absurd listed List.not_mem_nil⟩
    · exact ingested rest

end Bootstrap
/-- A call of the index by a writer, after the commit. -/
inductive Notice where
  | insert (fact_id : FactId) (embedding : Embedding)
  | expire (fact_id : FactId)

def Notice.vector : Notice → Option (FactId × Embedding)
  | insert fact_id embedding => some (fact_id,embedding)
  | expire _ => none

def inserted (notices : List Notice) : List (FactId × Embedding) := notices.filterMap Notice.vector

theorem mem_inserted {notices : List Notice} {id : FactId} {v : Embedding} : (id,v) ∈ inserted notices ↔ .insert id v ∈ notices := by
  unfold inserted
  rw [List.mem_filterMap]
  constructor
  · rintro ⟨notice,listed,same⟩
    cases notice with
    | insert id' v' =>
      cases same
      exact listed
    | expire id' => cases same
  · exact fun listed => ⟨_,listed,rfl⟩

theorem inserted_map_insert (entries : List (FactId × Embedding)) : inserted (entries.map fun entry => .insert entry.1 entry.2) = entries := by
  unfold inserted
  rw [List.filterMap_map]
  exact List.filterMap_some

theorem inserted_map_expire (ids : List FactId) : inserted (ids.map .expire) = [] := by
  unfold inserted
  rw [List.filterMap_map]
  exact List.filterMap_eq_nil_iff.mpr fun _ _ => rfl

theorem inserted_append (left right : List Notice) : inserted (left ++ right) = inserted left ++ inserted right := List.filterMap_append

theorem mem_map_expire {ids : List FactId} {id : FactId} : Notice.expire id ∈ ids.map Notice.expire ↔ id ∈ ids := by
  rw [List.mem_map]
  constructor
  · rintro ⟨other,listed,same⟩
    cases same
    exact listed
  · exact fun listed => ⟨id,listed,rfl⟩

theorem expire_not_mem_inserts {entries : List (FactId × Embedding)} {id : FactId} :
    Notice.expire id ∉ entries.map fun entry => Notice.insert entry.1 entry.2 := by
  intro listed
  obtain ⟨_,_,same⟩ := List.mem_map.mp listed
  cases same

/-- The conflict replaces or removes the old fact. -/
def CrudDecision.expires : CrudDecision → Bool
  | .Update => true
  | .Delete => true
  | _ => false

namespace PortWrite

/-- A call with what it tells the index, in this order, once it has been committed. -/
def notices (self : SqliteBackend) : PortWrite → Sql (List Notice)
  | insert_fact fact => do
    let id ← FactStore.insert self fact
    return [.insert id fact.embedding]
  | insert_or_reinforce_fact fact => do
    let result ← FactStore.insert_or_reinforce self fact
    return [.insert result.1 fact.embedding]
  | expire_fact id now => do
    FactStore.expire id now
    return [.expire id]
  | expire_and_invalidate_fact id now => do
    FactStore.expire_and_invalidate id now
    return [.expire id]
  | hard_delete_facts ids => do
    let _ ← FactStore.hard_delete_ids ids
    return ids.map .expire
  | insert_fact_atomic fact fingerprint expected_dim => do
    let id ← Ingest.insert_fact_atomic self fact fingerprint expected_dim
    return [.insert id fact.embedding]
  | insert_facts_batch_atomic facts scope_paths fingerprint expected_dim => do
    let (ids,_) ← Ingest.insert_facts_batch_atomic self facts scope_paths fingerprint expected_dim
    return (ids.zip (facts.map NewFact.embedding)).map fun entry => .insert entry.1 entry.2
  | resolve_conflict_atomic decision old_id new_fact relation weight now => do
    let (new_id,_) ← Resolve.resolve_conflict_atomic self decision old_id new_fact relation weight now
    return (if decision.expires then [.expire old_id] else []) ++
      (new_id.toList.map fun id => (id,new_fact.embedding)).map fun entry => .insert entry.1 entry.2
  | prune_atomic scored to_expire now => do
    let (_,expired) ← Forget.prune_atomic self scored to_expire now
    return expired.map .expire
  | apply_cycle_deltas_atomic codec report now => do
    let pass ← Cycle.apply_cycle_deltas_atomic self codec report now
    return (pass.to_index.map fun entry => .insert entry.1 entry.2) ++ pass.expired_ids.map .expire
  | apply_plan plan => do
    let (_,expired) ← Consolidate.apply_plan self plan
    return expired.map .expire
  | promote_atomic fact scope_path source_fact_ids provenance => do
    let (result,_) ← Ingest.promote_atomic self fact scope_path source_fact_ids provenance
    return [.insert result.fact_id fact.embedding]
  | call => do
    call.run self
    return []

/-- The notices come with the same commit. -/
theorem run_of_notices {self : SqliteBackend} {call : PortWrite} {s t : Db} {notices : List Notice}
    (committed : Commits (call.notices self) s notices t) : Commits (call.run self) s () t := by
  cases call <;>
    · obtain ⟨value,m,ran,last⟩ := commits_bind.mp committed
      obtain ⟨_,rfl⟩ := commits_pure.mp last
      first
      | exact ran
      | exact commits_bind.mpr ⟨value,_,ran,commits_pure.mpr ⟨rfl,rfl⟩⟩

/-- The calls that insert facts with vectors that they are given, or expire facts. -/
def Feeds : PortWrite → Prop
  | .insert_fact _ => True
  | .insert_fact_atomic _ _ _ => True
  | .insert_facts_batch_atomic _ _ _ _ => True
  | .resolve_conflict_atomic _ _ _ _ _ _ => True
  | .promote_atomic _ _ _ _ => True
  | .apply_cycle_deltas_atomic _ _ _ => True
  | .expire_fact _ _ => True
  | .expire_and_invalidate_fact _ _ => True
  | .prune_atomic _ _ _ => True
  | .apply_plan _ => True
  | _ => False

/-- Such a call tells of every vector it has brought, and of no other. -/
theorem vectors_notices {self : SqliteBackend} {call : PortWrite} (feeds : call.Feeds) {s t : Db} {notices : List Notice}
    (committed : Commits (call.notices self) s notices t) : t.vectors = s.vectors ++ inserted notices := by
  cases call with
  | insert_fact fact =>
    obtain ⟨id,m,ran,last⟩ := commits_bind.mp committed
    obtain ⟨rfl,rfl⟩ := commits_pure.mp last
    exact FactStore.vectors_insert ran
  | insert_fact_atomic fact fingerprint expected_dim =>
    obtain ⟨id,m,ran,last⟩ := commits_bind.mp committed
    obtain ⟨rfl,rfl⟩ := commits_pure.mp last
    exact Ingest.vectors_insert_fact_atomic ran
  | insert_facts_batch_atomic facts scope_paths fingerprint expected_dim =>
    obtain ⟨r,m,ran,last⟩ := commits_bind.mp committed
    obtain ⟨rfl,rfl⟩ := commits_pure.mp last
    rw [inserted_map_insert]
    exact Ingest.vectors_batch ran
  | resolve_conflict_atomic decision old_id new_fact relation weight now =>
    obtain ⟨r,m,ran,last⟩ := commits_bind.mp committed
    obtain ⟨rfl,rfl⟩ := commits_pure.mp last
    have old : inserted (if decision.expires then [Notice.expire old_id] else []) = [] := by
      split <;> rfl
    rw [inserted_append,old,inserted_map_insert]
    exact Resolve.vectors_resolve_conflict_atomic ran
  | promote_atomic fact scope_path source_fact_ids provenance =>
    obtain ⟨r,m,ran,last⟩ := commits_bind.mp committed
    obtain ⟨rfl,rfl⟩ := commits_pure.mp last
    exact Ingest.vectors_promote_atomic ran
  | apply_cycle_deltas_atomic codec report now =>
    obtain ⟨pass,m,ran,last⟩ := commits_bind.mp committed
    obtain ⟨rfl,rfl⟩ := commits_pure.mp last
    rw [inserted_append,inserted_map_insert,inserted_map_expire,List.append_nil]
    exact (Cycle.accounts_apply_cycle_deltas_atomic ran).1
  | expire_fact id now =>
    obtain ⟨_,m,ran,last⟩ := commits_bind.mp committed
    obtain ⟨rfl,rfl⟩ := commits_pure.mp last
    exact (FactStore.leaves_expire _ _ _ _ _ ran).trans (List.append_nil _).symm
  | expire_and_invalidate_fact id now =>
    obtain ⟨_,m,ran,last⟩ := commits_bind.mp committed
    obtain ⟨rfl,rfl⟩ := commits_pure.mp last
    exact (FactStore.leaves_expire_and_invalidate _ _ _ _ _ ran).trans (List.append_nil _).symm
  | prune_atomic scored to_expire now =>
    obtain ⟨r,m,ran,last⟩ := commits_bind.mp committed
    obtain ⟨rfl,rfl⟩ := commits_pure.mp last
    rw [inserted_map_expire,List.append_nil]
    exact Forget.leaves_prune_atomic _ _ _ _ _ _ ran
  | apply_plan plan =>
    obtain ⟨r,m,ran,last⟩ := commits_bind.mp committed
    obtain ⟨rfl,rfl⟩ := commits_pure.mp last
    rw [inserted_map_expire,List.append_nil]
    exact Consolidate.leaves_apply_plan _ _ _ _ ran
  | _ => cases feeds

/-- A notice of an expiry is about a fact that is expired for good. -/
theorem cold_notices {self : SqliteBackend} {call : PortWrite} (keeps : ∀ ids, call ≠ .hard_delete_facts ids) {s t : Db} {notices : List Notice}
    (committed : Commits (call.notices self) s notices t) {id : FactId} (told : .expire id ∈ notices) :
    id ≤ t.facts.seq ∧ ¬ t.IsActive id := by
  have ages := PortWrite.ages self (run_of_notices committed)
  cases call with
  | hard_delete_facts ids => exact absurd rfl (keeps ids)
  | insert_facts_batch_atomic facts scope_paths fingerprint expected_dim =>
    obtain ⟨r,m,ran,last⟩ := commits_bind.mp committed
    obtain ⟨rfl,rfl⟩ := commits_pure.mp last
    exact absurd told expire_not_mem_inserts
  | resolve_conflict_atomic decision old_id new_fact relation weight now =>
    obtain ⟨r,m,ran,last⟩ := commits_bind.mp committed
    obtain ⟨rfl,rfl⟩ := commits_pure.mp last
    have here := (List.mem_append.mp told).resolve_right expire_not_mem_inserts
    cases decision with
    | Add => cases here
    | Noop => cases here
    | Update =>
      obtain ⟨_,m,cascaded,linking⟩ := commits_bind.mp ran
      cases List.mem_singleton.mp here
      exact (cold_cascade_expire cascaded).later (ages_of_makes (Resolve.makes_insertLinked self _ _ _ _ _ : Makes _ 0 _) linking) _
        (List.mem_singleton_self _)
    | Delete =>
      obtain ⟨_,m,cascaded,closed⟩ := commits_bind.mp ran
      obtain ⟨_,rfl⟩ := commits_pure.mp closed
      cases List.mem_singleton.mp here
      exact cold_cascade_expire cascaded _ (List.mem_singleton_self _)
  | apply_cycle_deltas_atomic codec report now =>
    obtain ⟨pass,m,ran,last⟩ := commits_bind.mp committed
    obtain ⟨rfl,rfl⟩ := commits_pure.mp last
    have here := (List.mem_append.mp told).resolve_left expire_not_mem_inserts
    exact (Cycle.accounts_apply_cycle_deltas_atomic ran).2 id (mem_map_expire.mp here)
  | expire_fact other now =>
    obtain ⟨_,m,ran,last⟩ := commits_bind.mp committed
    obtain ⟨rfl,rfl⟩ := commits_pure.mp last
    cases List.mem_singleton.mp told
    exact cold_expire ran _ (List.mem_singleton_self _)
  | expire_and_invalidate_fact other now =>
    obtain ⟨_,m,ran,last⟩ := commits_bind.mp committed
    obtain ⟨rfl,rfl⟩ := commits_pure.mp last
    cases List.mem_singleton.mp told
    exact cold_updateActive (fun _ => Option.some_ne_none now) ran _ (List.mem_singleton_self _)
  | prune_atomic scored to_expire now =>
    obtain ⟨r,m,ran,last⟩ := commits_bind.mp committed
    obtain ⟨rfl,rfl⟩ := commits_pure.mp last
    obtain ⟨_,m₁,scored,rest⟩ := commits_bind.mp ran
    obtain ⟨_,m₂,swept,closed⟩ := commits_bind.mp rest
    obtain ⟨rfl,rfl⟩ := commits_pure.mp closed
    have expires := (expires_update_importance_scores_bulk scored).trans (Forget.expires_expireAll swept).2
    exact cold_of_expires expires ages id (mem_map_expire.mp told)
  | apply_plan plan =>
    obtain ⟨r,m,ran,last⟩ := commits_bind.mp committed
    obtain ⟨rfl,rfl⟩ := commits_pure.mp last
    exact cold_apply_plan ran id (mem_map_expire.mp told)
  | _ =>
    obtain ⟨_,m,ran,last⟩ := commits_bind.mp committed
    obtain ⟨rfl,rfl⟩ := commits_pure.mp last
    simp at told

def Bootstraps : PortWrite → Prop
  | .ingest_bootstrap_batch_atomic _ _ _ _ _ => True
  | _ => False

/-- A new fact has its vector among those that the transaction brought. -/
theorem new_vector {s t : Db} {news : List (FactId × Embedding)} (vectors : t.vectors = s.vectors ++ news) {f : Fact}
    (member : f ∈ t.facts.rows) (fresh : s.facts.seq < f.id) : (f.id,f.embedding) ∈ news := by
  have listed : (f.id,f.embedding) ∈ t.vectors := List.mem_map_of_mem member
  rw [vectors] at listed
  refine (List.mem_append.mp listed).resolve_left fun old => ?_
  obtain ⟨g,held,same⟩ := List.mem_map.mp old
  have low := s.facts.allocated g held
  rw [Prod.mk.injEq] at same
  exact absurd (same.1 ▸ low) (not_le.mpr fresh)

/-- The calls that touch the spaces insert no fact. -/
theorem seq_onSpaces {self : SqliteBackend} {call : PortWrite} (spaces : call.OnSpaces) {s t : Db} (committed : Commits (call.run self) s () t) :
    t.facts.seq = s.facts.seq := by
  have leaves : Leaves (fun t => t.facts.seq) (call.run self) := leaves_onSpaces (fun _ _ => rfl) (fun _ _ => rfl) (fun _ _ => rfl) spaces
  exact leaves s () t committed

/-- Every new fact is told of, with its vector, unless a bootstrap has written it. -/
theorem arrived_notices {self : SqliteBackend} {call : PortWrite} {s t : Db} {notices : List Notice}
    (committed : Commits (call.notices self) s notices t) {f : Fact} (member : f ∈ t.facts.rows) (fresh : s.facts.seq < f.id) :
    call.Bootstraps ∨ .insert f.id f.embedding ∈ notices := by
  by_cases feeds : call.Feeds
  · exact .inr (mem_inserted.mp (new_vector (vectors_notices feeds committed) member fresh))
  · have ran := run_of_notices committed
    by_cases spaces : call.OnSpaces
    · exact absurd (t.facts.allocated f member) (not_le.mpr (seq_onSpaces spaces ran ▸ fresh))
    · by_cases embeds : call.Embeds
      · cases call with
        | insert_or_reinforce_fact fact =>
          obtain ⟨flag,m,stored,last⟩ := commits_bind.mp committed
          obtain ⟨rfl,rfl⟩ := commits_pure.mp last
          have news := new_vector (FactStore.vectors_insert_or_reinforce stored) member fresh
          split at news
          · cases news
          · rw [List.mem_singleton,Prod.mk.injEq] at news
            rw [news.1,news.2]
            exact .inr (List.mem_singleton_self _)
        | ingest_bootstrap_batch_atomic => exact .inl trivial
        | insert_summary summary =>
          obtain ⟨id,m,inserted,last⟩ := commits_bind.mp ran
          obtain ⟨_,rfl⟩ := commits_pure.mp last
          have facts := (SummaryStore.keepsCore_insert self summary _ _ _ inserted).1
          exact absurd (t.facts.allocated f member) (not_le.mpr (facts ▸ fresh))
        | _ => first | exact absurd trivial feeds | cases embeds
      · exact absurd (Tables.Writes.quiet_facts (PortWrite.quiet self spaces embeds ran) f member) (not_le.mpr fresh)

end PortWrite
end MemoryEngine
