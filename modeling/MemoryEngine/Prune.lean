import MemoryEngine.DedupApply
import MemoryEngine.Forget

/-! The sweep against a store that has moved on since the facts were scored. The write
phase expires the facts of the plan one after the other and fails on the first that is
no longer active. -/

namespace MemoryEngine
open Time KeyedTable Transaction Dedup

namespace Forget
variable {self : SqliteBackend}

/-- Scores are written exactly when all of them are finite. -/
theorem update_importance_scores_bulk_commits_iff {scores : List (FactId × F64)} {s : Db} :
    (∃ t, Commits (FactStore.update_importance_scores_bulk self scores) s () t) ↔ ∀ entry ∈ scores, entry.2.is_finite = true := by
  unfold FactStore.update_importance_scores_bulk
  cases found : scores.find? (fun entry => !entry.2.is_finite) with
  | some entry =>
    have infinite : entry.2.is_finite = false := by simpa using List.find?_some found
    constructor
    · rintro ⟨t,committed⟩
      exact absurd committed commits_throw
    · intro finite
      rw [finite entry (List.mem_of_find?_eq_some found)] at infinite
      cases infinite
  | none =>
    have finite : ∀ entry ∈ scores, entry.2.is_finite = true := by simpa using List.find?_eq_none.mp found
    refine ⟨fun _ => finite,fun _ => ?_⟩
    have apart : ∀ f, (FactStore.setScore scores f).scope_id = f.scope_id ∧
        (FactStore.setScore scores f).source_event_id = f.source_event_id := by
      intro f
      unfold FactStore.setScore
      split <;> exact ⟨rfl,rfl⟩
    obtain ⟨t,written⟩ := FactStore.exists_updated s (fun _ => true) (FactStore.setScore scores) (FactStore.setScore_id scores) apart
    exact ⟨t,commits_execute.mpr written⟩

/-- One round of the write phase. -/
theorem expires_round {fact_id : FactId} {now : DateTime} {s t : Db} {u : Unit} (committed : Commits (do
      FactStore.expire fact_id now
      let _ ← EdgeStore.expire_by_fact fact_id now) s u t) : Expires [fact_id] s t := by
  obtain ⟨_,m,expired,cascade⟩ := commits_bind.mp committed
  obtain ⟨n,m',cascaded,last⟩ := commits_bind.mp cascade
  obtain ⟨_,rfl⟩ := commits_pure.mp last
  have edges : t.facts = m.facts := by
    rw [(EdgeStore.commits_expire_by_fact.mp cascaded).2]
    rfl
  exact (expires_expire expired).trans (expires_of_facts edges)

theorem expires_expireAll {to_expire : List FactId} {now : DateTime} {s t : Db} {u : Unit}
    (committed : Commits (expireAll to_expire now) s u t) : to_expire.Nodup ∧ Expires to_expire s t := by
  unfold expireAll at committed
  induction to_expire generalizing s with
  | nil =>
    obtain ⟨_,rfl⟩ := commits_pure.mp committed
    exact ⟨List.nodup_nil,expires_of_facts rfl⟩
  | cons fact_id rest ih =>
    rw [List.foldlM_cons] at committed
    obtain ⟨_,m,first,tail⟩ := commits_bind.mp committed
    obtain ⟨distinct,later⟩ := ih tail
    have one := expires_round first
    refine ⟨List.nodup_cons.mpr ⟨fun again => ?_,distinct⟩,one.trans later⟩
    exact ((one.after fact_id).mp (later.before fact_id again)).2 (List.mem_singleton_self _)

/-- Facts without repetition that are all active can be expired together. -/
theorem expireAll_commits {to_expire : List FactId} (now : DateTime) {s : Db} (distinct : to_expire.Nodup)
    (active : ∀ id ∈ to_expire, s.IsActive id) : ∃ t, Commits (expireAll to_expire now) s () t := by
  unfold expireAll
  induction to_expire generalizing s with
  | nil => exact ⟨s,commits_pure.mpr ⟨rfl,rfl⟩⟩
  | cons fact_id rest ih =>
    obtain ⟨apart,distinct⟩ := List.nodup_cons.mp distinct
    obtain ⟨here,others⟩ := List.forall_mem_cons.mp active
    obtain ⟨m,expired⟩ := FactStore.expire_commits now here
    obtain ⟨n,m',cascaded⟩ := EdgeStore.expire_by_fact_commits fact_id now m
    have first : Commits (do
        FactStore.expire fact_id now
        let _ ← EdgeStore.expire_by_fact fact_id now) s () m' :=
      commits_bind.mpr ⟨(),m,expired,commits_bind.mpr ⟨n,m',cascaded,commits_pure.mpr ⟨rfl,rfl⟩⟩⟩
    have still : ∀ id ∈ rest, m'.IsActive id := by
      intro id listed
      refine ((expires_round first).after id).mpr ⟨others id listed,fun same => apart ?_⟩
      rwa [← List.mem_singleton.mp same]
    obtain ⟨t,later⟩ := ih distinct still
    refine ⟨t,?_⟩
    rw [List.foldlM_cons]
    exact commits_bind.mpr ⟨(),m',first,later⟩

/-- What the caller of a sweep relies on: the write phase commits, no fact of the plan
    stays active, and the ids that come back are those of the facts that this call expired. -/
def Settles (self : SqliteBackend) (scored : List (FactId × F64)) (to_expire : List FactId) (now : DateTime) (s : Db) : Prop :=
  ∃ stats expired t, Commits (prune_atomic self scored to_expire now) s (stats,expired) t ∧
    (∀ id ∈ to_expire, ¬ t.IsActive id) ∧ expired.Nodup ∧ ∀ id, id ∈ expired ↔ s.IsActive id ∧ ¬ t.IsActive id

theorem settles_plan_iff {scored : List (FactId × F64)} {to_expire : List FactId} {now : DateTime} {s : Db}
    (distinct : to_expire.Nodup) : Settles self scored to_expire now s ↔
      (∀ entry ∈ scored, entry.2.is_finite = true) ∧ ∀ id ∈ to_expire, s.IsActive id := by
  constructor
  · rintro ⟨stats,expired,t,committed,_⟩
    obtain ⟨_,m,materialized,rest⟩ := commits_bind.mp committed
    obtain ⟨_,m',swept,last⟩ := commits_bind.mp rest
    refine ⟨update_importance_scores_bulk_commits_iff.mp ⟨m,materialized⟩,fun id listed => ?_⟩
    have active := (expires_expireAll swept).2.before id listed
    exact (((expires_update_importance_scores_bulk materialized).after id).mp active).1
  · rintro ⟨finite,active⟩
    obtain ⟨m,materialized⟩ := update_importance_scores_bulk_commits_iff.mpr finite
    have scoring := expires_update_importance_scores_bulk materialized
    have ready : ∀ id ∈ to_expire, m.IsActive id := fun id listed => (scoring.after id).mpr ⟨active id listed,List.not_mem_nil⟩
    obtain ⟨t,swept⟩ := expireAll_commits now distinct ready
    have moved := (scoring.trans (expires_expireAll swept).2).moved
    refine ⟨_,to_expire,t,commits_bind.mpr ⟨(),m,materialized,commits_bind.mpr ⟨(),t,swept,commits_pure.mpr ⟨rfl,rfl⟩⟩⟩,?_,distinct,moved⟩
    exact fun id listed => ((moved id).mp listed).2

theorem belowThreshold_sublist (rows : List FactScoringRow) (scored : List (FactId × F64)) (policy : ForgetPolicy) :
    (belowThreshold rows scored policy).Sublist (rows.map FactScoringRow.id) := by
  unfold belowThreshold
  induction rows generalizing scored with
  | nil => exact List.Sublist.slnil
  | cons row rest ih =>
    cases scored with
    | nil => exact List.nil_sublist _
    | cons entry others =>
      rw [List.zip_cons_cons,List.filterMap_cons,List.map_cons]
      split
      · exact (ih others).cons _
      · rename_i id chosen
        split at chosen
        · cases chosen
        · split at chosen
          · cases chosen
            exact (ih others).cons_cons _
          · cases chosen

/-- The facts are scored as they stood in one state and expired in another, whatever has
    happened in between. The sweep does its work exactly when every score is finite and
    every fact of the plan is active still. -/
theorem settles_iff {s₀ s₁ : Db} {rows : List FactScoringRow} (read : Commits FactStore.list_active_scoring s₀ rows s₀)
    (compute_importance : FactScoringRow → Nat → DateTime → ForgetPolicy → F64) (g : MemoryGraph) (policy : ForgetPolicy) (now : DateTime) :
    Settles self (score compute_importance g rows now policy) (belowThreshold rows (score compute_importance g rows now policy) policy) now s₁ ↔
      (∀ entry ∈ score compute_importance g rows now policy, entry.2.is_finite = true) ∧
        ∀ id ∈ belowThreshold rows (score compute_importance g rows now policy) policy, s₁.IsActive id := by
  obtain ⟨found,m,listed,made⟩ := commits_bind.mp read
  obtain ⟨converted,m',parsed,last⟩ := commits_bind.mp made
  obtain ⟨rfl,rfl⟩ := commits_query.mp listed
  obtain ⟨checked,rfl⟩ := commits_lift.mp parsed
  obtain ⟨rfl,_⟩ := readRows_ok.mp checked
  obtain ⟨rfl,_⟩ := commits_pure.mp last
  refine settles_plan_iff (List.Nodup.sublist (belowThreshold_sublist _ _ _) ?_)
  rw [List.map_map]
  exact active_facts_distinct m'

namespace Sample
open MemoryEngine.Sample

/-- Weights of zero, under which every fact scores zero. -/
def policy : ForgetPolicy where
  half_life_days := F64.ofRat 30
  half_life_overrides := []
  decay_exempt_types := []
  min_importance := F64.ofRat (1 / 10)
  recency_weight := F64.ofRat 0
  frequency_weight := F64.ofRat 0
  graph_degree_weight := F64.ofRat 0
  base_importance_weight := F64.ofRat 0

def zero (_ : FactScoringRow) (_ : Nat) (_ : DateTime) (_ : ForgetPolicy) : F64 := F64.ofRat 0

def rows : List FactScoringRow := engine.storage.activeFacts.map Fact.scoring

theorem reads : Commits FactStore.list_active_scoring engine.storage rows engine.storage := by
  refine commits_bind.mpr ⟨_,_,commits_query.mpr ⟨rfl,rfl⟩,commits_bind.mpr ⟨_,_,commits_lift.mpr ⟨readRows_ok.mpr ⟨rfl,?_⟩,rfl⟩,
    commits_pure.mpr ⟨rfl,rfl⟩⟩⟩
  decide

end Sample

open MemoryEngine.Sample in
theorem settles_iff_sample : Settles backend (score Sample.zero engine.graph Sample.rows moment Sample.policy)
    (belowThreshold Sample.rows (score Sample.zero engine.graph Sample.rows moment Sample.policy) Sample.policy) moment engine.storage ↔
      (∀ entry ∈ score Sample.zero engine.graph Sample.rows moment Sample.policy, entry.2.is_finite = true) ∧
        ∀ id ∈ belowThreshold Sample.rows (score Sample.zero engine.graph Sample.rows moment Sample.policy) Sample.policy,
          engine.storage.IsActive id :=
  settles_iff Sample.reads Sample.zero engine.graph Sample.policy moment

open MemoryEngine.Sample in
/-- One of three facts is expired between the scoring and the write phase, and the sweep
    fails with the other two still active. -/
theorem sweep_lost : ∃ s₁, Commits FactStore.list_active_scoring engine.storage Sample.rows engine.storage ∧
    Commits (FactStore.expire 2 moment) engine.storage () s₁ ∧
      belowThreshold Sample.rows (score Sample.zero engine.graph Sample.rows moment Sample.policy) Sample.policy = [1,2,3] ∧
        s₁.IsActive 1 ∧ ¬ Settles backend (score Sample.zero engine.graph Sample.rows moment Sample.policy) [1,2,3] moment s₁ := by
  have active : engine.storage.IsActive 2 := by decide +kernel
  obtain ⟨s₁,expired⟩ := FactStore.expire_commits moment active
  have moved := (expires_expire expired).after
  refine ⟨s₁,Sample.reads,expired,by decide +kernel,?_,fun settles => ?_⟩
  · exact (moved 1).mpr ⟨by decide +kernel,by decide⟩
  · have still := ((settles_plan_iff (by decide)).mp settles).2 2 (by decide)
    exact ((moved 2).mp still).2 (List.mem_singleton_self _)

end Forget
end MemoryEngine
