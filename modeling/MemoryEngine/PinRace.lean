import MemoryEngine.Planning
import MemoryEngine.Prune
import MemoryEngine.Archive

/-! A pin against an operation that forgets facts. Each of these operations picks its
victims in a read phase and expires or deletes them in a later write phase that
does not look at the pin again. -/

namespace MemoryEngine
open Time KeyedTable Transaction Dedup Consolidate MergeLog

/-- The operations that forget facts, with what they are called with. -/
inductive Forgetting where
  | prune (compute_importance : FactScoringRow → Nat → DateTime → ForgetPolicy → F64) (graph : MemoryGraph) (policy : ForgetPolicy)
      (now : DateTime)
  | consolidate (run : ConsolidationRun) (now : DateTime)
  | archive (write_pak : ArchivePak → Except MemoryError (String × Int × String)) (policy : ArchivePolicy) (now : DateTime)

/-- A write phase with all it was handed by the read phase. -/
inductive Pending where
  | prune (scored : List (FactId × F64)) (to_expire : List FactId) (now : DateTime)
  | consolidate (plan : ConsolidationPlan)
  | archive (entry : NewArchiveManifest) (fact_ids : List FactId)

/-- The read phase with the computation after it; an archival of too few facts has
    nothing to write. -/
def Forgetting.read (self : SqliteBackend) : Forgetting → Sql (Option Pending)
  | prune compute_importance graph policy now => do
    policy.validate
    let active_facts ← FactStore.list_active_scoring
    let scored := Forget.score compute_importance graph active_facts now policy
    return some (.prune scored (Forget.belowThreshold active_facts scored policy) now)
  | consolidate run now => do
    let snapshot ← load_snapshot self run.parse_from_rfc3339 run.config now
    let plan ← run.compute_plan snapshot
    return some (.consolidate plan)
  | archive write_pak policy now => do
    let (facts,edges) ← Archive.select_archive_candidates self policy.expired_before
    if facts.length < policy.min_facts then return none else do
      let (pak_filename,pak_size_bytes,blake3_hash) ← write_pak ⟨self.embed_dim,facts,edges⟩
      return some (.archive (Archive.manifest pak_filename facts edges pak_size_bytes blake3_hash now) (facts.map Fact.id))

def Pending.write (self : SqliteBackend) : Pending → Sql Unit
  | prune scored to_expire now => do
    let _ ← Forget.prune_atomic self scored to_expire now
  | consolidate plan => do
    let _ ← apply_plan self plan
  | archive entry fact_ids => Archive.commit_archive_atomic entry fact_ids

/-- The read phase picks this fact: below the threshold and neither pinned nor exempt,
    the loser of a duplicate pair, or expired long enough and not pinned. -/
def Forgetting.Selects (self : SqliteBackend) (id : FactId) (s : Db) : Forgetting → Prop
  | prune compute_importance graph policy now => ∃ f ∈ s.facts.rows, f.id = id ∧ f.t_expired = none ∧ f.is_pinned = false ∧
      policy.is_decay_exempt f.fact_type = false ∧
        (compute_importance f.scoring (graph.degree id) now policy).lt policy.min_importance = true
  | consolidate run now => ∃ snapshot, Commits (load_snapshot self run.parse_from_rfc3339 run.config now) s snapshot s ∧
      id ∈ (run.dedup snapshot).losers
  | archive _ policy _ => ∃ f ∈ s.facts.rows, f.id = id ∧ f.archivable policy.expired_before = true

/-- The fact is deleted or expired between two states. -/
def Forgets (id : FactId) (s t : Db) : Prop := s.facts.Has id ∧ ¬ t.facts.Has id ∨ s.IsActive id ∧ ¬ t.IsActive id

/-- The orders in which a pin commits before the write phase: ahead of the read phase
    or between the two. The states are the first one and those around the write. -/
inductive PinRace (self : SqliteBackend) (op : Forgetting) (id : FactId) (s : Db) : Bool → Db → Db → Prop where
  | pinFirst {m m' t : Db} {p : Pending} (pinned : Commits (FactStore.set_pinned id true) s () m)
      (read : Commits (op.read self) m (some p) m') (written : Commits (p.write self) m' () t) : PinRace self op id s true m' t
  | readFirst {m m' t : Db} {p : Pending} (read : Commits (op.read self) s (some p) m)
      (pinned : Commits (FactStore.set_pinned id true) m () m') (written : Commits (p.write self) m' () t) :
      PinRace self op id s false m' t

namespace PinRace
variable {self : SqliteBackend}

/-- The same facts exist and the same ones are active. -/
structure SameLife (s t : Db) : Prop where
  has : ∀ id, t.facts.Has id ↔ s.facts.Has id
  active : ∀ id, t.IsActive id ↔ s.IsActive id

theorem SameLife.refl (s : Db) : SameLife s s := ⟨fun _ => Iff.rfl,fun _ => Iff.rfl⟩

theorem SameLife.of_facts {s t : Db} (facts : t.facts = s.facts) : SameLife s t := by
  refine ⟨fun id => by rw [facts],fun id => ?_⟩
  rw [Tables.IsActive,facts]
  rfl

theorem sameLife_set_pinned {id : FactId} {pinned : Bool} {s t : Db} {u : Unit}
    (committed : Commits (FactStore.set_pinned id pinned) s u t) : SameLife s t := by
  obtain ⟨_,written⟩ := FactStore.commits_updateRow.mp committed
  refine ⟨fun other => ?_,fun other => ?_⟩
  · rw [written,Tables.updateFact,Table.has_update]
  · rw [isActive_update written]
    refine exists_congr fun f => and_congr_right fun _ => and_congr_right fun _ => ?_
    split <;> rfl

/-- A write phase that expires exactly some active facts. -/
theorem forgets_of_expires {ids : List FactId} {s t : Db} (births : t.births = s.births) (expires : Expires ids s t)
    (id : FactId) : Forgets id s t ↔ id ∈ ids := by
  rw [expires.moved,Forgets,has_iff_births,has_iff_births,births]
  simp

theorem mem_belowThreshold {compute_importance : FactScoringRow → Nat → DateTime → ForgetPolicy → F64} {graph : MemoryGraph}
    {rows : List FactScoringRow} {now : DateTime} {policy : ForgetPolicy} {id : FactId} :
    id ∈ Forget.belowThreshold rows (Forget.score compute_importance graph rows now policy) policy ↔
      ∃ row ∈ rows, row.id = id ∧ row.is_pinned = false ∧ policy.is_decay_exempt row.fact_type = false ∧
        (compute_importance row (graph.degree id) now policy).lt policy.min_importance = true := by
  rw [Forget.belowThreshold,Forget.score,← List.map_prod_left_eq_zip,List.filterMap_map,List.mem_filterMap]
  refine exists_congr fun row => and_congr_right fun _ => ?_
  simp only [Function.comp_apply]
  constructor
  · intro chosen
    split at chosen
    · cases chosen
    · rename_i free
      split at chosen
      · rename_i low
        cases chosen
        simp only [Bool.or_eq_true,not_or,Bool.not_eq_true] at free
        exact ⟨rfl,free.1,free.2,low⟩
      · cases chosen
  · rintro ⟨rfl,free,subject,low⟩
    simp [free,subject,low]

theorem keepsBirths_expireAll (to_expire : List FactId) (now : DateTime) : KeepsBirths (Forget.expireAll to_expire now) := by
  unfold Forget.expireAll
  refine leaves_foldlM (fun _ fact_id => ?_) to_expire ()
  exact leaves_bind (keepsBirths_expire fact_id now) fun _ => leaves_bind (keepsBirths_expire_by_fact fact_id now) fun _ => leaves_pure _

theorem forgets_prune {scored : List (FactId × F64)} {to_expire : List FactId} {now : DateTime} {s t : Db} {u : Unit}
    (committed : Commits ((Pending.prune scored to_expire now).write self) s u t) (id : FactId) :
    Forgets id s t ↔ id ∈ to_expire := by
  obtain ⟨r,m,swept,last⟩ := commits_bind.mp committed
  obtain ⟨_,rfl⟩ := commits_pure.mp last
  obtain ⟨_,m₁,materialized,rest⟩ := commits_bind.mp swept
  obtain ⟨_,m₂,expired,last⟩ := commits_bind.mp rest
  obtain ⟨_,rfl⟩ := commits_pure.mp last
  have first := (Prod.mk.inj (keepsBirths_update_importance_scores_bulk _ _ _ _ materialized)).2
  have second := (Prod.mk.inj (keepsBirths_expireAll _ _ _ _ _ expired)).2
  exact forgets_of_expires (second.trans first) ((expires_update_importance_scores_bulk materialized).trans (Forget.expires_expireAll expired).2) id

/-- Applied to a store in which the facts of the snapshot are still active, a plan
    expires exactly its losers. -/
theorem forgets_consolidate {facts : List Fact} {plan : ConsolidationPlan} {s t : Db} {u : Unit} (planned : Planned facts plan.dedup)
    (active : ∀ f ∈ facts, s.IsActive f.id) (committed : Commits ((Pending.consolidate plan).write self) s u t) (id : FactId) :
    Forgets id s t ↔ id ∈ plan.dedup.losers := by
  obtain ⟨r,_,applied,last⟩ := commits_bind.mp committed
  obtain ⟨_,rfl⟩ := commits_pure.mp last
  obtain ⟨⟨dedup,m,deduplicated,same⟩,_⟩ := commits_apply_plan applied
  obtain ⟨ran,part,_,grown,expires⟩ := expires_apply_dedup planned.updates deduplicated
  have inactive := inactive_apply_dedup planned.updates deduplicated
  have births : t.births = s.births := by
    rw [Tables.births,same]
    exact (Prod.mk.inj (keepsBirths_apply_dedup _ _ _ _ _ deduplicated)).2
  rw [forgets_of_expires births (expires.trans (expires_of_facts same)),List.append_nil]
  constructor
  · intro listed
    rw [grown] at listed
    exact (part.map Expiry.loser).subset listed
  · intro listed
    obtain ⟨e,planned_,rfl⟩ := List.mem_map.mp listed
    obtain ⟨loser,left,survivor,right,here,there,_⟩ := planned.origin e planned_
    rw [expires.moved]
    exact ⟨here ▸ active loser left,inactive e planned_ (there ▸ active survivor right)⟩

/-- Deleting ids leaves exactly the facts with other ids. -/
theorem rows_hard_delete_ids {ids : List FactId} {s t : Db} {n : Nat} (committed : Commits (FactStore.hard_delete_ids ids) s n t) :
    t.facts.rows = s.facts.rows.filter fun f => !ids.contains f.id := by
  unfold FactStore.hard_delete_ids at committed
  split at committed
  · rename_i nothing
    obtain ⟨_,rfl⟩ := commits_pure.mp committed
    rw [nothing,List.filter_eq_self.mpr]
    simp
  · obtain ⟨_,m₁,bounded,counting⟩ := commits_bind.mp committed
    obtain ⟨_,rfl⟩ := commits_require.mp bounded
    obtain ⟨_,m₂,counted,deleting⟩ := commits_bind.mp counting
    obtain ⟨_,rfl⟩ := commits_query.mp counted
    obtain ⟨_,m₃,deleted,last⟩ := commits_bind.mp deleting
    obtain ⟨_,rfl⟩ := commits_pure.mp last
    rw [commits_execute.mp deleted,Tables.deleteFacts,Table.delete_rows]

theorem forgets_archive {entry : NewArchiveManifest} {fact_ids : List FactId} {s t : Db} {u : Unit}
    (committed : Commits ((Pending.archive entry fact_ids).write self) s u t) (id : FactId) :
    Forgets id s t ↔ s.facts.Has id ∧ id ∈ fact_ids := by
  obtain ⟨_,m₁,recorded,rest⟩ := commits_bind.mp committed
  obtain ⟨_,m₂,cut,deleting⟩ := commits_bind.mp rest
  obtain ⟨_,m₃,deleted,last⟩ := commits_bind.mp deleting
  obtain ⟨_,rfl⟩ := commits_pure.mp last
  have before : m₂.facts = s.facts := by
    rw [EdgeStore.commits_hard_delete cut]
    exact (ArchiveManifestStore.keepsCore_insert entry _ _ _ recorded).1
  have left := rows_hard_delete_ids deleted
  rw [before] at left
  have held : ∀ f : Fact, f ∈ t.facts.rows ↔ f ∈ s.facts.rows ∧ f.id ∉ fact_ids := by
    intro f
    rw [left,List.mem_filter]
    simp
  have has : t.facts.Has id ↔ s.facts.Has id ∧ id ∉ fact_ids := by
    simp only [Table.Has,held]
    constructor
    · rintro ⟨f,⟨member,away⟩,rfl⟩
      exact ⟨⟨f,member,rfl⟩,away⟩
    · rintro ⟨⟨f,member,rfl⟩,away⟩
      exact ⟨f,⟨member,away⟩,rfl⟩
  have active : t.IsActive id ↔ s.IsActive id ∧ id ∉ fact_ids := by
    simp only [Tables.IsActive,held]
    constructor
    · rintro ⟨f,⟨member,away⟩,rfl,expiry⟩
      exact ⟨⟨f,member,rfl,expiry⟩,away⟩
    · rintro ⟨⟨f,member,rfl,expiry⟩,away⟩
      exact ⟨f,⟨member,away⟩,rfl,expiry⟩
  have exists_ : s.IsActive id → s.facts.Has id := by
    rintro ⟨f,member,same,_⟩
    exact ⟨f,member,same⟩
  rw [Forgets,has,active]
  tauto

theorem commits_select_archive_candidates {expired_before : DateTime} {s t : Db} {r : List Fact × List Edge}
    (committed : Commits (Archive.select_archive_candidates self expired_before) s r t) :
    t = s ∧ r.1 = s.facts.rows.filter (Fact.archivable expired_before) := by
  obtain ⟨facts,_,listed,rest⟩ := commits_bind.mp committed
  obtain ⟨_,_,queried,converting⟩ := commits_bind.mp listed
  obtain ⟨rfl,rfl⟩ := commits_query.mp queried
  obtain ⟨readable,rfl⟩ := commits_lift.mp converting
  obtain ⟨edges,_,internal,last⟩ := commits_bind.mp rest
  obtain ⟨rfl,rfl⟩ := commits_pure.mp last
  obtain ⟨_,_,queried,converting⟩ := commits_bind.mp internal
  obtain ⟨rfl,rfl⟩ := commits_query.mp queried
  obtain ⟨_,rfl⟩ := commits_lift.mp converting
  exact ⟨rfl,(readRows_ok.mp readable).1⟩

/-- What the write phase forgets is what the read phase picked, when the facts are
    as alive as they were. -/
theorem forgets_iff_selects {op : Forgetting} {p : Pending} {id : FactId} {r r' m t : Db} (read : Commits (op.read self) r (some p) r')
    (alive : SameLife r' m) (written : Commits (p.write self) m () t) : r' = r ∧ (Forgets id m t ↔ op.Selects self id r) := by
  cases op with
  | prune compute_importance graph policy now =>
    obtain ⟨_,_,validated,rest⟩ := commits_bind.mp read
    obtain ⟨_,rfl⟩ := commits_lift.mp validated
    obtain ⟨rows,_,listed,last⟩ := commits_bind.mp rest
    obtain ⟨rfl,_,rfl⟩ := FactStore.commits_list_active_scoring.mp listed
    obtain ⟨same,rfl⟩ := commits_pure.mp last
    cases same
    refine ⟨rfl,?_⟩
    rw [forgets_prune written,mem_belowThreshold,Forgetting.Selects]
    constructor
    · rintro ⟨row,member,rfl,free,subject,low⟩
      obtain ⟨f,held,rfl⟩ := List.mem_map.mp member
      obtain ⟨held,expiry⟩ := List.mem_filter.mp held
      exact ⟨f,held,rfl,by simpa using expiry,free,subject,low⟩
    · rintro ⟨f,held,rfl,expiry,free,subject,low⟩
      refine ⟨f.scoring,List.mem_map.mpr ⟨f,List.mem_filter.mpr ⟨held,by simp [expiry]⟩,rfl⟩,rfl,free,subject,low⟩
  | consolidate run now =>
    obtain ⟨snapshot,_,loaded,planning⟩ := commits_bind.mp read
    have ⟨unread,_,_,taken,_⟩ := commits_load_snapshot loaded
    rw [unread] at loaded planning
    obtain ⟨plan,_,computed,last⟩ := commits_bind.mp planning
    obtain ⟨planned,rfl⟩ := commits_lift.mp computed
    obtain ⟨same,rfl⟩ := commits_pure.mp last
    cases same
    refine ⟨rfl,?_⟩
    obtain ⟨foreseen,losers⟩ := planned_compute_plan planned taken
    have active : ∀ f ∈ snapshot.active_facts, m.IsActive f.id := by
      intro f listed
      rcases taken with ⟨_,none_⟩ | ⟨_,all⟩
      · rw [none_] at listed
        cases listed
      · rw [all] at listed
        obtain ⟨held,expiry⟩ := List.mem_filter.mp listed
        exact (alive.active f.id).mpr ⟨f,held,rfl,by simpa using expiry⟩
    rw [forgets_consolidate foreseen active written,losers,Forgetting.Selects]
    constructor
    · exact fun loser => ⟨snapshot,loaded,loser⟩
    · rintro ⟨other,again,loser⟩
      rwa [(loaded.functional again).1] at loser
  | archive write_pak policy now =>
    obtain ⟨⟨facts,edges⟩,_,selected,deciding⟩ := commits_bind.mp read
    obtain ⟨unread,listed⟩ := commits_select_archive_candidates selected
    simp only [] at deciding listed
    rw [unread] at deciding
    by_cases few : facts.length < policy.min_facts
    · rw [if_pos few] at deciding
      obtain ⟨absent,_⟩ := commits_pure.mp deciding
      cases absent
    · rw [if_neg few] at deciding
      obtain ⟨⟨pak_filename,pak_size_bytes,blake3_hash⟩,_,packed,last⟩ := commits_bind.mp deciding
      obtain ⟨_,rfl⟩ := commits_lift.mp packed
      obtain ⟨same,rfl⟩ := commits_pure.mp last
      cases same
      refine ⟨rfl,?_⟩
      rw [forgets_archive written,Forgetting.Selects,alive.has,List.mem_map]
      constructor
      · rintro ⟨_,f,member,rfl⟩
        rw [listed] at member
        obtain ⟨held,chosen⟩ := List.mem_filter.mp member
        exact ⟨f,held,rfl,chosen⟩
      · rintro ⟨f,held,rfl,chosen⟩
        exact ⟨⟨f,held,rfl⟩,f,by rw [listed]; exact List.mem_filter.mpr ⟨held,chosen⟩,rfl⟩

/-- No read phase picks a fact that it reads as pinned. -/
theorem not_selects_of_pinned {op : Forgetting} {id : FactId} {s : Db} (pinned : ∀ f ∈ s.facts.rows, f.id = id → f.is_pinned = true) :
    ¬ op.Selects self id s := by
  have free : ∀ f ∈ s.facts.rows, f.id = id → f.is_pinned = false → False := by
    intro f member same unpinned
    rw [pinned f member same] at unpinned
    cases unpinned
  cases op with
  | prune compute_importance graph policy now =>
    rintro ⟨f,member,same,_,unpinned,_⟩
    exact free f member same unpinned
  | consolidate run now =>
    rintro ⟨snapshot,loaded,loser⟩
    obtain ⟨e,expired,rfl⟩ := List.mem_map.mp loser
    obtain ⟨planned,_⟩ := compute_dedup_spec run.similarity run.dedup_threshold snapshot.active_facts MAX_FACTS_FOR_DEDUP snapshot.last
    obtain ⟨f,listed,_,_,same,_,unpinned,_⟩ := planned.origin e expired
    rcases (commits_load_snapshot loaded).2.2.2.1 with ⟨_,nothing⟩ | ⟨_,all⟩
    · rw [nothing] at listed
      cases listed
    · rw [all] at listed
      exact free f (List.mem_filter.mp listed).1 same unpinned
  | archive write_pak policy now =>
    rintro ⟨f,member,same,chosen⟩
    simp only [Fact.archivable,Bool.and_eq_true,Bool.not_eq_true'] at chosen
    exact free f member same chosen.1

theorem pinned_set_pinned {id : FactId} {s t : Db} {u : Unit} (committed : Commits (FactStore.set_pinned id true) s u t) :
    ∀ f ∈ t.facts.rows, f.id = id → f.is_pinned = true := by
  intro f member same
  rw [(FactStore.commits_updateRow.mp committed).2,Tables.updateFact,Table.mem_update] at member
  obtain ⟨old,_,rfl⟩ := member
  by_cases here : (old.id == id) = true
  · rw [if_pos here]
  · rw [if_neg here] at same
    exact absurd (beq_iff_eq.mpr same) here

end PinRace

/-- A fact pinned before the write phase survives it exactly when the pin came before
    the read phase or the read phase had not picked the fact. -/
theorem pinned_fact_survives_iff {self : SqliteBackend} {op : Forgetting} {id : FactId} {s m t : Db} {first : Bool}
    (race : PinRace self op id s first m t) : ¬ Forgets id m t ↔ first = true ∨ ¬ op.Selects self id s := by
  cases race with
  | pinFirst pinned read written =>
    obtain ⟨_,forgets⟩ := PinRace.forgets_iff_selects read (PinRace.SameLife.refl _) written
    rw [forgets]
    exact iff_of_true (PinRace.not_selects_of_pinned (PinRace.pinned_set_pinned pinned)) (.inl rfl)
  | readFirst read pinned written =>
    obtain ⟨_,forgets⟩ := PinRace.forgets_iff_selects read (PinRace.sameLife_set_pinned pinned) written
    rw [forgets]
    simp

namespace Sample

/-- A policy under which every fact that may be forgotten is. -/
def sweepPolicy : ForgetPolicy where
  half_life_days := F64.ofRat 30
  half_life_overrides := []
  decay_exempt_types := []
  min_importance := F64.ofRat (1 / 2)
  recency_weight := F64.ofRat 1
  frequency_weight := F64.ofRat 1
  graph_degree_weight := F64.ofRat 1
  base_importance_weight := F64.ofRat 1

def sweep : Forgetting := .prune (fun _ _ _ _ => F64.ofRat 0) MemoryGraph.new sweepPolicy moment

end Sample

/-- Pinned first, the fact survives the sweep. -/
theorem pinned_fact_survives_sample : ∃ m t, PinRace Sample.backend Sample.sweep 2 Sample.engine.storage true m t ∧ ¬ Forgets 2 m t := by
  have ends : Ends (FactStore.set_pinned 2 true) Sample.engine.storage (fun _ m => Ends (Sample.sweep.read Sample.backend) m
      fun p m' => p.any fun p => Ends (p.write Sample.backend) m' fun _ _ => true) = true := by decide +kernel
  obtain ⟨_,m,pinned,reading⟩ := commits_of_ends ends
  obtain ⟨p,m',read,writing⟩ := commits_of_ends reading
  obtain ⟨p,rfl,ended⟩ := (Option.any_eq_true _ _).mp writing
  obtain ⟨_,t,written,_⟩ := commits_of_ends ended
  exact ⟨m',t,.pinFirst pinned read written,(pinned_fact_survives_iff (.pinFirst pinned read written)).mpr (.inl rfl)⟩

/-- A fact pinned between the two phases of a sweep is expired by it. -/
theorem pinned_fact_forgotten : ¬ ∀ (self : SqliteBackend) (op : Forgetting) (id : FactId) (s m t : Db) (first : Bool),
    PinRace self op id s first m t → ¬ Forgets id m t := by
  intro claim
  have ends : Ends (Sample.sweep.read Sample.backend) Sample.engine.storage (fun p m => p.any fun p =>
      Ends (FactStore.set_pinned 2 true) m fun _ m' => decide (m'.IsActive 2) &&
        Ends (p.write Sample.backend) m' fun _ t => !decide (t.IsActive 2)) = true := by decide +kernel
  obtain ⟨p,m,read,pinning⟩ := commits_of_ends ends
  obtain ⟨p,rfl,pinning⟩ := (Option.any_eq_true _ _).mp pinning
  obtain ⟨_,m',pinned,writing⟩ := commits_of_ends pinning
  obtain ⟨active,writing⟩ := Bool.and_eq_true_iff.mp writing
  obtain ⟨_,t,written,expired⟩ := commits_of_ends writing
  exact claim _ _ _ _ _ _ _ (.readFirst read pinned written) (.inr ⟨of_decide_eq_true active,by simpa using expired⟩)

end MemoryEngine
