import MemoryEngine.Dedup
import MemoryEngine.Constraints

/-! Applying a dedup plan to a store that has moved on since the plan was made.
Survivors are looked up before anything expires, so a merge is carried out only
into a fact that was active when the call began, and the merges carried out are an
ordered log again. -/

namespace MemoryEngine
open Time KeyedTable Transaction MergeLog Consolidate

namespace Dedup
variable {self : SqliteBackend}

/-- Exactly these ids, all active before, are expired. -/
structure Expires (ids : List FactId) (s t : Db) : Prop where
  before : ∀ id ∈ ids, s.IsActive id
  after : ∀ id, t.IsActive id ↔ s.IsActive id ∧ id ∉ ids

theorem Expires.none {s t : Db} (same : ∀ id, t.IsActive id ↔ s.IsActive id) : Expires [] s t :=
  ⟨by simp,by simpa using same⟩

theorem Expires.trans {ids ids' : List FactId} {s m t : Db} (first : Expires ids s m) (second : Expires ids' m t) :
    Expires (ids ++ ids') s t where
  before := by
    intro id listed
    rcases List.mem_append.mp listed with left | right
    · exact first.before id left
    · exact ((first.after id).mp (second.before id right)).1
  after := by
    intro id
    rw [second.after,first.after,List.mem_append,not_or,and_assoc]

theorem Expires.moved {ids : List FactId} {s t : Db} (expires : Expires ids s t) (id : FactId) :
    id ∈ ids ↔ s.IsActive id ∧ ¬ t.IsActive id := by
  rw [expires.after]
  constructor
  · exact fun listed => ⟨expires.before id listed,fun active => active.2 listed⟩
  · rintro ⟨active,inactive⟩
    by_contra away
    exact inactive ⟨active,away⟩

/-- Activity after an update of rows. -/
theorem isActive_update {sel : Fact → Bool} {change : Fact → Fact} {same : ∀ f, (change f).id = f.id} {s t : Db}
    (written : t.toTables = { s.toTables with facts := s.facts.update sel change same }) (id : FactId) :
    t.IsActive id ↔ ∃ f ∈ s.facts.rows, f.id = id ∧ (if sel f then change f else f).t_expired = none := by
  unfold Tables.IsActive
  rw [written]
  have keeps : ∀ f : Fact, (if sel f then change f else f).id = f.id := by
    intro f
    split
    · exact same f
    · rfl
  constructor
  · rintro ⟨_,member,here,expiry⟩
    rw [Table.mem_update] at member
    obtain ⟨f,held,rfl⟩ := member
    exact ⟨f,held,(keeps f).symm.trans here,expiry⟩
  · rintro ⟨f,held,here,expiry⟩
    refine ⟨_,?_,(keeps f).trans here,expiry⟩
    rw [Table.mem_update]
    exact ⟨f,held,rfl⟩

theorem expires_expire {id : FactId} {now : DateTime} {s t : Db} {u : Unit} (committed : Commits (FactStore.expire id now) s u t) :
    Expires [id] s t := by
  obtain ⟨active,written⟩ := FactStore.commits_updateActive.mp committed
  refine ⟨by simpa using active,fun other => ?_⟩
  rw [isActive_update written,List.mem_singleton]
  constructor
  · rintro ⟨f,member,rfl,expiry⟩
    by_cases chosen : (f.id == id && f.t_expired.isNone) = true
    · rw [if_pos chosen] at expiry
      cases expiry
    · rw [if_neg chosen] at expiry
      refine ⟨⟨f,member,rfl,expiry⟩,fun here => chosen ?_⟩
      simp [here,expiry]
  · rintro ⟨⟨f,member,rfl,expiry⟩,away⟩
    refine ⟨f,member,rfl,?_⟩
    have skipped : (f.id == id && f.t_expired.isNone) = false := by simp [away]
    rw [skipped]
    exact expiry

/-- A statement that leaves the facts alone expires none. -/
theorem expires_of_facts {s t : Db} (facts : t.facts = s.facts) : Expires [] s t := by
  refine Expires.none fun id => ?_
  rw [Tables.IsActive,facts]
  rfl

theorem expires_applyExpiry {survivor_live : FactId → Bool} {now : DateTime} {acc acc' : DedupApplied} {e : Expiry} {s t : Db}
    (committed : Commits (applyExpiry survivor_live now acc e) s acc' t) :
    (acc'.expired = acc.expired ∧ Expires [] s t) ∨
      (survivor_live e.survivor = true ∧ acc'.expired = acc.expired ++ [e.loser] ∧ Expires [e.loser] s t) := by
  unfold applyExpiry at committed
  split at committed
  · rename_i live
    obtain ⟨r,m,attempted,rest⟩ := commits_bind.mp committed
    rcases commits_attempt.mp attempted with ⟨_,rfl,expired⟩ | ⟨err,rfl,_,rfl⟩
    · obtain ⟨n,m',cascaded,last⟩ := commits_bind.mp rest
      obtain ⟨rfl,rfl⟩ := commits_pure.mp last
      have edges : t.facts = m.facts := by
        rw [(EdgeStore.commits_expire_by_fact.mp cascaded).2]
        rfl
      exact .inr ⟨live,rfl,(expires_expire expired).trans (expires_of_facts edges)⟩
    · cases err with
      | NotFound what =>
        obtain ⟨rfl,rfl⟩ := commits_pure.mp rest
        exact .inl ⟨rfl,expires_of_facts rfl⟩
      | _ => exact absurd rest commits_throw
  · obtain ⟨rfl,rfl⟩ := commits_pure.mp committed
    exact .inl ⟨rfl,expires_of_facts rfl⟩

/-- The merges carried out are a part of the plan, each into a fact that was looked
    up as active. -/
theorem expires_expirations {survivor_live : FactId → Bool} {now : DateTime} {expirations : List Expiry} {acc acc' : DedupApplied}
    {s t : Db} (committed : Commits (expirations.foldlM (applyExpiry survivor_live now) acc) s acc' t) :
    ∃ ran : List Expiry, ran.Sublist expirations ∧ (∀ e ∈ ran, survivor_live e.survivor = true) ∧
      acc'.expired = acc.expired ++ ran.map Expiry.loser ∧ Expires (ran.map Expiry.loser) s t := by
  induction expirations generalizing acc s with
  | nil =>
    obtain ⟨rfl,rfl⟩ := commits_pure.mp committed
    exact ⟨[],List.Sublist.refl _,by simp,by simp,expires_of_facts rfl⟩
  | cons e rest ih =>
    rw [List.foldlM_cons] at committed
    obtain ⟨next,m,first,tail⟩ := commits_bind.mp committed
    obtain ⟨ran,part,live,grown,expires⟩ := ih tail
    rcases expires_applyExpiry first with ⟨kept,none_⟩ | ⟨here,added,one⟩
    · exact ⟨ran,part.cons e,live,by rw [grown,kept],none_.trans expires⟩
    · refine ⟨e :: ran,part.cons_cons e,List.forall_mem_cons.mpr ⟨here,live⟩,?_,one.trans expires⟩
      rw [grown,added,List.append_assoc]
      rfl

/-- Rewriting scores expires nothing. -/
theorem expires_update_importance_scores_bulk {scores : List (FactId × F64)} {s t : Db} {u : Unit}
    (committed : Commits (FactStore.update_importance_scores_bulk self scores) s u t) : Expires [] s t := by
  unfold FactStore.update_importance_scores_bulk at committed
  split at committed
  · exact absurd committed commits_throw
  · refine Expires.none fun id => ?_
    rw [isActive_update (commits_execute.mp committed)]
    refine exists_congr fun f => and_congr_right fun _ => and_congr_right fun _ => ?_
    rw [if_pos rfl,FactStore.setScore]
    split <;> rfl

/-- What a call made of a plan that rewrites no base importance. -/
theorem expires_apply_dedup {computed : DedupComputed} {now : DateTime} {applied : DedupApplied} {s t : Db}
    (updates : computed.importance_updates = []) (committed : Commits (apply_dedup self computed now) s applied t) :
    ∃ ran : List Expiry, ran.Sublist computed.expirations ∧ (∀ e ∈ ran, s.IsActive e.survivor) ∧
      applied.expired = ran.map Expiry.loser ∧ Expires applied.expired s t := by
  unfold apply_dedup at committed
  rw [updates] at committed
  obtain ⟨_,m₁,inherited,rest⟩ := commits_bind.mp committed
  obtain ⟨_,m₂,materialized,rest⟩ := commits_bind.mp rest
  obtain ⟨live,m₃,looked,loop⟩ := commits_bind.mp rest
  obtain ⟨_,rfl⟩ := commits_pure.mp inherited
  obtain ⟨rfl,rfl⟩ := commits_query.mp looked
  have scored := expires_update_importance_scores_bulk materialized
  obtain ⟨ran,part,found,grown,expires⟩ := expires_expirations loop
  rw [List.nil_append] at grown
  refine ⟨ran,part,fun e listed => ?_,grown,?_⟩
  · exact ((scored.after _).mp (of_decide_eq_true (found e listed))).1
  · rw [grown]
    exact scored.trans expires

/-- A merge into a fact that was looked up as active leaves the loser inactive. -/
theorem inactive_applyExpiry {survivor_live : FactId → Bool} {now : DateTime} {acc acc' : DedupApplied} {e : Expiry} {s t : Db}
    (live : survivor_live e.survivor = true) (committed : Commits (applyExpiry survivor_live now acc e) s acc' t) :
    ¬ t.IsActive e.loser := by
  unfold applyExpiry at committed
  rw [if_pos live] at committed
  obtain ⟨r,m,attempted,rest⟩ := commits_bind.mp committed
  rcases commits_attempt.mp attempted with ⟨_,rfl,expired⟩ | ⟨err,rfl,failed,rfl⟩
  · obtain ⟨n,m',cascaded,last⟩ := commits_bind.mp rest
    obtain ⟨rfl,rfl⟩ := commits_pure.mp last
    have edges : t.facts = m.facts := by
      rw [(EdgeStore.commits_expire_by_fact.mp cascaded).2]
      rfl
    rw [(expires_of_facts edges).after,(expires_expire expired).after]
    simp
  · cases err with
    | NotFound what =>
      obtain ⟨rfl,rfl⟩ := commits_pure.mp rest
      intro active
      obtain ⟨t',expired⟩ := FactStore.expire_commits now active
      rw [Commits] at expired
      rw [expired] at failed
      cases failed
    | _ => exact absurd rest commits_throw

theorem inactive_expirations {survivor_live : FactId → Bool} {now : DateTime} {expirations : List Expiry} {acc acc' : DedupApplied}
    {s t : Db} (committed : Commits (expirations.foldlM (applyExpiry survivor_live now) acc) s acc' t) :
    ∀ e ∈ expirations, survivor_live e.survivor = true → ¬ t.IsActive e.loser := by
  induction expirations generalizing acc s with
  | nil => simp
  | cons e rest ih =>
    rw [List.foldlM_cons] at committed
    obtain ⟨next,m,first,tail⟩ := commits_bind.mp committed
    obtain ⟨ran,_,_,_,expires⟩ := expires_expirations tail
    refine List.forall_mem_cons.mpr ⟨fun live active => ?_,ih tail⟩
    exact inactive_applyExpiry live first ((expires.after _).mp active).1

/-- Every merge into a fact that was active when the call began leaves its loser
    inactive. -/
theorem inactive_apply_dedup {computed : DedupComputed} {now : DateTime} {applied : DedupApplied} {s t : Db}
    (updates : computed.importance_updates = []) (committed : Commits (apply_dedup self computed now) s applied t) :
    ∀ e ∈ computed.expirations, s.IsActive e.survivor → ¬ t.IsActive e.loser := by
  unfold apply_dedup at committed
  rw [updates] at committed
  obtain ⟨_,m₁,inherited,rest⟩ := commits_bind.mp committed
  obtain ⟨_,m₂,materialized,rest⟩ := commits_bind.mp rest
  obtain ⟨live,m₃,looked,loop⟩ := commits_bind.mp rest
  obtain ⟨_,rfl⟩ := commits_pure.mp inherited
  obtain ⟨rfl,rfl⟩ := commits_query.mp looked
  have scored := expires_update_importance_scores_bulk materialized
  intro e listed active
  exact inactive_expirations loop e listed (decide_eq_true ((scored.after _).mpr ⟨active,by simp⟩))

/-- Every commit leaves the configuration, the ids in use and their creation times
    alone. -/
abbrev KeepsBirths {α : Type} (x : Sql α) : Prop := Leaves (fun t => (t.config,t.births)) x

theorem has_iff_births {t : Tables} {id : FactId} : t.facts.Has id ↔ id ∈ t.births.map Prod.fst := by
  simp [Tables.births,Table.Has,Row.key]

theorem keepsBirths_update {change : Tables → Tables} {sel : Fact → Bool} {revise : Fact → Fact}
    (same : ∀ f, (revise f).id = f.id) (created : ∀ f, (revise f).t_created = f.t_created)
    (config : ∀ t, (change t).config = t.config) (facts : ∀ t, (change t).facts = t.facts.update sel revise same) :
    KeepsBirths (execute change) := by
  refine leaves_execute fun t => ?_
  rw [config,Tables.births,facts,Table.update_rows,List.map_map,Tables.births]
  congr 1
  refine List.map_congr_left fun f _ => ?_
  rw [Function.comp_apply]
  split
  · rw [same,created]
  · rfl

theorem keepsBirths_updateActive {id : FactId} {change : Fact → Fact} {same : ∀ f, (change f).id = f.id}
    (created : ∀ f, (change f).t_created = f.t_created) : KeepsBirths (FactStore.updateActive id change same) :=
  leaves_bind leaves_query fun _ => leaves_bind
    (keepsBirths_update same created (fun _ => rfl) fun _ => rfl) fun _ => leaves_require

theorem keepsBirths_expire (id : FactId) (now : DateTime) : KeepsBirths (FactStore.expire id now) :=
  keepsBirths_updateActive fun _ => rfl

theorem keepsBirths_updateRow {id : FactId} {change : Fact → Fact} {same : ∀ f, (change f).id = f.id}
    (created : ∀ f, (change f).t_created = f.t_created) : KeepsBirths (FactStore.updateRow id change same) :=
  leaves_bind leaves_query fun _ => leaves_bind
    (keepsBirths_update same created (fun _ => rfl) fun _ => rfl) fun _ => leaves_require

theorem keepsBirths_update_base_importance (id : FactId) (base_importance : F64) :
    KeepsBirths (FactStore.update_base_importance id base_importance) := by
  cases base_importance with
  | nan =>
    refine leaves_bind leaves_query fun found => ?_
    split
    · exact leaves_throw _
    · exact leaves_throw _
  | num importance => exact keepsBirths_updateRow fun _ => rfl

theorem keepsBirths_update_importance_scores_bulk (scores : List (FactId × F64)) :
    KeepsBirths (FactStore.update_importance_scores_bulk self scores) := by
  unfold FactStore.update_importance_scores_bulk
  split
  · exact leaves_throw _
  · refine keepsBirths_update (FactStore.setScore_id scores) (fun f => ?_) (fun _ => rfl) fun _ => rfl
    unfold FactStore.setScore
    split <;> rfl

theorem keepsBirths_expire_by_fact (id : FactId) (now : DateTime) : KeepsBirths (EdgeStore.expire_by_fact id now) :=
  leaves_bind leaves_query fun _ => leaves_bind (leaves_execute fun _ => rfl) fun _ => leaves_pure _

theorem keepsBirths_applyExpiry (survivor_live : FactId → Bool) (now : DateTime) (acc : DedupApplied) (e : Expiry) :
    KeepsBirths (applyExpiry survivor_live now acc e) := by
  unfold applyExpiry
  split
  · refine leaves_bind (leaves_attempt (keepsBirths_expire _ _)) fun r => ?_
    cases r with
    | ok _ => exact leaves_bind (keepsBirths_expire_by_fact _ _) fun _ => leaves_pure _
    | error err =>
      cases err with
      | NotFound _ => exact leaves_pure _
      | _ => exact leaves_throw _
  · exact leaves_pure _

theorem keepsBirths_apply_dedup (computed : DedupComputed) (now : DateTime) : KeepsBirths (apply_dedup self computed now) :=
  leaves_bind (leaves_foldlM (fun _ _ => keepsBirths_update_base_importance _ _) _ _) fun _ =>
    leaves_bind (keepsBirths_update_importance_scores_bulk _) fun _ => leaves_bind leaves_query fun _ =>
      leaves_foldlM (keepsBirths_applyExpiry _ _) _ _

end Dedup

/-- Whatever became of the store since the snapshot, each fact the call expires has a
    chain of planned survivors that ends in a fact active afterwards, and the ids it
    returns are those of the facts it moved from active to expired. -/
theorem apply_dedup_keeps_representative {self : SqliteBackend} {similarity : Embedding → Embedding → F32} {threshold : F32}
    {facts : List Fact} {max_facts : Nat} {since : Option DateTime} {now : DateTime} {applied : DedupApplied} {s t : Db}
    (committed : Commits (Consolidate.apply_dedup self (Dedup.compute_dedup similarity threshold facts max_facts since) now) s applied t) :
    (∀ id ∈ applied.expired, ∃ keeper,
      Relation.TransGen (Dedup.compute_dedup similarity threshold facts max_facts since).MergedInto id keeper ∧ t.IsActive keeper) ∧
      applied.expired.Nodup ∧ ∀ id, id ∈ applied.expired ↔ s.IsActive id ∧ ¬ t.IsActive id := by
  obtain ⟨planned,_⟩ := Dedup.compute_dedup_spec similarity threshold facts max_facts since
  obtain ⟨ran,part,live,grown,expires⟩ := Dedup.expires_apply_dedup planned.updates committed
  have ordered : Ordered (Dedup.merges ran) := planned.ordered.sublist (part.map _)
  refine ⟨fun id listed => ?_,?_,expires.moved⟩
  · rw [grown,← Dedup.folded_merges] at listed
    obtain ⟨keeper,chain,kept,c,into⟩ := ordered.kept listed
    refine ⟨keeper,?_,?_⟩
    · rw [Dedup.mergedInto_iff]
      exact chain_mono (part.map _).subset chain
    · rw [expires.after,grown,← Dedup.folded_merges]
      exact ⟨live _ (Dedup.mem_merges.mp into),kept⟩
  · rw [grown,← Dedup.folded_merges]
    exact ordered.nodup

/-- The plan for the sample facts, which all look alike. -/
def Sample.dedupPlan : DedupComputed :=
  Dedup.compute_dedup (fun _ _ => 0x3F800000) 0x3F800000 (Sample.engine.storage.facts.rows.filter fun f => f.t_expired.isNone)
    MAX_FACTS_FOR_DEDUP none

/-- The second fact is expired before the plan is applied; the third one still is folded
    into the first. -/
theorem apply_dedup_keeps_representative_sample : ∃ s applied t, Commits (FactStore.expire 2 Sample.moment) Sample.engine.storage () s ∧
    Commits (apply_dedup Sample.backend Sample.dedupPlan Sample.moment) s applied t ∧ applied.expired = [3] ∧
    (∀ id ∈ applied.expired, ∃ keeper, Relation.TransGen Sample.dedupPlan.MergedInto id keeper ∧ t.IsActive keeper) ∧
      applied.expired.Nodup ∧ ∀ id, id ∈ applied.expired ↔ s.IsActive id ∧ ¬ t.IsActive id := by
  have ends : Ends (FactStore.expire 2 Sample.moment) Sample.engine.storage (fun _ s =>
      Ends (apply_dedup Sample.backend Sample.dedupPlan Sample.moment) s fun applied _ => applied.expired == [3]) = true := by
    decide +kernel
  obtain ⟨_,s,first,second⟩ := commits_of_ends ends
  obtain ⟨applied,t,committed,expired⟩ := commits_of_ends second
  exact ⟨s,applied,t,first,committed,beq_iff_eq.mp expired,apply_dedup_keeps_representative committed⟩

end MemoryEngine
