import MemoryEngine.Constraints
import MemoryEngine.Reconstruct
import MemoryEngine.Stamping

/-! The life of the registry of spaces while no two calls run at once. The served space
keeps its vectors with the facts, so a promotion always finds room to retain them. -/

namespace MemoryEngine
open Time KeyedTable Transaction FactVectors EmbeddingSpaces

/-! ## Spaces and vectors in the schema -/

namespace Tables
variable {t : Tables}

theorem Unique.with_spaces (unique : t.Unique) {spaces : List EmbeddingSpace} {vectors : List FactVector}
    (names : (spaces.map EmbeddingSpace.name).Nodup)
    (one_active : ∀ a ∈ spaces, ∀ b ∈ spaces, a.status = .Active → b.status = .Active → a.name = b.name)
    (keys : (vectors.map (fun v => (v.fact_id,v.space_id))).Nodup) :
    ({ t with embedding_spaces := spaces, fact_vectors := vectors } : Tables).Unique :=
  ⟨unique.config,unique.checkpoints,unique.manifest,unique.wisdom,names,one_active,keys,unique.labels⟩

theorem ForeignKeys.with_spaces (foreign : t.ForeignKeys) {spaces : List EmbeddingSpace} {vectors : List FactVector}
    (own : ∀ v ∈ vectors, t.facts.Has v.fact_id ∧ ∃ s ∈ spaces, s.name = v.space_id) :
    ({ t with embedding_spaces := spaces, fact_vectors := vectors } : Tables).ForeignKeys where
  event_scope := foreign.event_scope
  fact_event := foreign.fact_event
  fact_scope := foreign.fact_scope
  edge_source := foreign.edge_source
  edge_target := foreign.edge_target
  edge_scope := foreign.edge_scope
  summary_scope := foreign.summary_scope
  wisdom_fact := foreign.wisdom_fact
  activity_scope := foreign.activity_scope
  promoted_fact := foreign.promoted_fact
  last_activity := foreign.last_activity
  vector_fact := fun v member => (own v member).1
  vector_space := fun v member => (own v member).2
  scope_parent := foreign.scope_parent

end Tables

/-- A space under a name of its own can be registered beside the others. -/
theorem exists_registered (db : Db) (space : EmbeddingSpace) (unused : ∀ s ∈ db.embedding_spaces, s.name ≠ space.name)
    (single : space.status = .Active → ∀ s ∈ db.embedding_spaces, s.status ≠ .Active) :
    ∃ t : Db, t.toTables = { db.toTables with embedding_spaces := db.embedding_spaces ++ [space] } := by
  have names : ((db.embedding_spaces ++ [space]).map EmbeddingSpace.name).Nodup := by
    rw [List.map_append,List.map_singleton,← List.concat_eq_append]
    refine List.Nodup.concat (fun held => ?_) db.unique.spaces
    obtain ⟨old,member,same⟩ := List.mem_map.mp held
    exact unused old member same
  have one_active : ∀ a ∈ db.embedding_spaces ++ [space], ∀ b ∈ db.embedding_spaces ++ [space],
      a.status = .Active → b.status = .Active → a.name = b.name := by
    intro a left b right active active'
    rcases List.mem_append.mp left with left | here <;> rcases List.mem_append.mp right with right | there
    · exact db.unique.one_active a left b right active active'
    · rw [List.mem_singleton.mp there] at active'
      exact absurd active (single active' a left)
    · rw [List.mem_singleton.mp here] at active
      exact absurd active' (single active b right)
    · rw [List.mem_singleton.mp here,List.mem_singleton.mp there]
  have registered : ∀ v ∈ db.fact_vectors, db.facts.Has v.fact_id ∧ ∃ sp ∈ db.embedding_spaces ++ [space], sp.name = v.space_id := by
    intro v member
    obtain ⟨sp,held,named⟩ := db.foreign.vector_space v member
    exact ⟨db.foreign.vector_fact v member,sp,List.mem_append_left _ held,named⟩
  exact exists_db (db.unique.with_spaces names one_active db.unique.vectors) (db.foreign.with_spaces registered)

/-! ## Lives -/

/-- What calls that do not overlap bring a store to. A reconstruction that is interrupted
    leaves its space populating. -/
inductive Life : Db → Prop where
  | fresh : Life Db.fresh
  | write {self : SqliteBackend} {call : PortWrite} {s t : Db} (before : Life s) (ordinary : ¬ call.OnSpaces)
      (committed : Commits (call.run self) s () t) : Life t
  | begin_populating {fp : EmbeddingFingerprint} {s t : Db} (before : Life s)
      (committed : Commits (begin_populating ⟨Reconstruct.space_name_for fp,fp,.Populating⟩) s () t) : Life t
  | backfill {space : EmbeddingSpace} {rows : List (FactId × Embedding)} {n : Nat} {s t : Db} (before : Life s)
      (opened : s.findSpace space.name = some space) (populating : space.status = .Populating)
      (committed : Commits (write_backfill_batch space.name rows) s n t) : Life t
  | promote {populating : String} {outcome : PromoteOutcome} {s t : Db} (before : Life s)
      (committed : Commits (promote_space populating) s outcome t) : Life t

/-- The served space has no vectors apart from the facts, whose ids are positive. -/
structure Rested (t : Tables) : Prop where
  idle : ∀ active, t.activeSpace = some active → ∀ v ∈ t.fact_vectors, v.space_id ≠ active.name
  seq : 0 ≤ t.facts.seq
  positive : ∀ f ∈ t.facts.rows, 0 < f.id

theorem rested_fresh : Rested Db.fresh.toTables where
  idle := fun _ none_ => nomatch none_
  seq := le_refl _
  positive := fun _ member => absurd member List.not_mem_nil

/-- Facts with new ids come above the counter. -/
theorem positive_ages {kept : Fact → Fact → Prop} {s t : Tables} (rested : Rested s) (ages : s.facts.Ages kept t.facts) :
    0 ≤ t.facts.seq ∧ ∀ f ∈ t.facts.rows, 0 < f.id := by
  refine ⟨rested.seq.trans ages.seq,fun f member => ?_⟩
  by_cases old : Row.key f ≤ s.facts.seq
  · obtain ⟨before,held,same,_⟩ := ages.old f member old
    exact lt_of_lt_of_eq (rested.positive before held) same
  · exact lt_of_le_of_lt rested.seq (not_le.mp old)

theorem rested_write {dim expected_dim : Nat} {s t : Db} (rested : Rested s.toTables) (writes : s.toTables.Writes dim expected_dim t.toTables) :
    Rested t.toTables := by
  obtain ⟨seq,positive⟩ := positive_ages rested writes.facts
  refine ⟨fun active serving v member => ?_,seq,positive⟩
  rcases writes.spaces with same | ⟨fresh,fp,_,stamped⟩
  · exact rested.idle active (activeSpace_congr same ▸ serving) v (writes.vectors member)
  -- the new space is registered under a name of its own
  · rw [activeSpace_stamped fresh stamped] at serving
    cases serving
    intro named
    obtain ⟨space,registered,same⟩ := s.foreign.vector_space v (writes.vectors member)
    have names := t.unique.spaces
    rw [stamped,List.map_append,List.nodup_append] at names
    exact names.2.2 _ (List.mem_map_of_mem registered) _ (List.mem_singleton_self _) (same.trans named)

theorem activeSpace_begun {t : Tables} {space : EmbeddingSpace} (populating : space.status = .Populating) :
    ({ t with embedding_spaces := t.embedding_spaces ++ [space] } : Tables).activeSpace = t.activeSpace := by
  unfold Tables.activeSpace
  rw [List.find?_append]
  have passed : [space].find? EmbeddingSpace.isActive = none := by simp [EmbeddingSpace.isActive,populating]
  rw [passed,Option.or_none]

theorem rested_begun {space : EmbeddingSpace} {s t : Db} {u : Unit} (rested : Rested s.toTables)
    (committed : Commits (begin_populating space) s u t) : Rested t.toTables := by
  rcases commits_begin_populating committed with ⟨_,_,_,_,rfl⟩ | ⟨_,written⟩
  · exact rested
  · rw [written]
    refine ⟨fun active serving => ?_,rested.seq,rested.positive⟩
    rw [activeSpace_begun rfl] at serving
    exact rested.idle active serving

/-- A batch for a space that does not serve. -/
theorem rested_filled {space_id : String} {rows : List (FactId × Embedding)} {n : Nat} {s t : Db} (rested : Rested s.toTables)
    (apart : ∀ active, s.activeSpace = some active → active.name ≠ space_id)
    (committed : Commits (write_backfill_batch space_id rows) s n t) : Rested t.toTables := by
  obtain ⟨written,new⟩ := commits_write_backfill_batch committed
  have spaces : t.embedding_spaces = s.embedding_spaces := by rw [written]
  have facts : t.facts = s.facts := by rw [written]
  refine ⟨fun active serving v member => ?_,by rw [facts]; exact rested.seq,by rw [facts]; exact rested.positive⟩
  rw [activeSpace_congr spaces] at serving
  rcases new v member with old | ⟨named,_⟩
  · exact rested.idle active serving v old
  · rw [named]
    exact (apart active serving).symm

/-- A populating space does not serve. -/
theorem apart_of_populating {space : EmbeddingSpace} {s : Db} (opened : s.findSpace space.name = some space) (populating : space.status = .Populating) :
    ∀ active, s.activeSpace = some active → active.name ≠ space.name := by
  intro active serving same
  obtain ⟨held,status⟩ := (activeSpace_eq_some s).mp serving
  have one := space_name_unique s held ((findSpace_eq_some s).mp opened).1 same
  rw [one,populating] at status
  cases status

theorem rested_backfill {space : EmbeddingSpace} {rows : List (FactId × Embedding)} {n : Nat} {s t : Db} (rested : Rested s.toTables)
    (opened : s.findSpace space.name = some space) (populating : space.status = .Populating)
    (committed : Commits (write_backfill_batch space.name rows) s n t) : Rested t.toTables :=
  rested_filled rested (apart_of_populating opened populating) committed

theorem rested_promote {populating : String} {outcome : PromoteOutcome} {s t : Db} (rested : Rested s.toTables)
    (committed : Commits (promote_space populating) s outcome t) : Rested t.toTables := by
  obtain ⟨active,new,_,named,_,_,written,_⟩ := commits_promote_space committed
  have serving := activeSpace_promoted named written
  refine ⟨fun active' serving' v member => ?_,?_,fun f member => ?_⟩
  · rw [serving] at serving'
    cases serving'
    rw [written] at member
    have apart : (v.space_id != populating) = true := (List.mem_filter.mp member).2
    rw [show ({ new with status := .Active } : EmbeddingSpace).name = populating from ((findSpace_eq_some s).mp named).2]
    exact bne_iff_ne.mp apart
  · rw [written]
    exact rested.seq
  · rw [written] at member
    obtain ⟨old,held,rfl⟩ := mem_swappedFacts.mp member
    exact rested.positive old held

theorem Life.rested {s : Db} (life : Life s) : Rested s.toTables := by
  induction life with
  | fresh => exact rested_fresh
  | @write self call s t _ ordinary committed ih =>
    exact rested_write ih (Tables.Writes.of_changes (PortWrite.makes self ordinary _ _ _ committed))
  | begin_populating _ committed ih => exact rested_begun ih committed
  | backfill _ opened populating committed ih => exact rested_backfill ih opened populating committed
  | promote _ committed ih => exact rested_promote ih committed

/-! ## When the transactions commit -/

/-- A name that is not taken, or a populating space of this very identity. -/
def Free (t : Tables) (fp : EmbeddingFingerprint) : Prop :=
  ∀ s, t.findSpace (Reconstruct.space_name_for fp) = some s → s.status = .Populating ∧ s.fingerprint = fp

/-- A space is opened where its name is free. -/
theorem begins {fp : EmbeddingFingerprint} {s : Db} (free : Free s.toTables fp) (fits : DimsFit fp) : ∃ t,
    Commits (begin_populating ⟨Reconstruct.space_name_for fp,fp,.Populating⟩) s () t := by
  cases found : s.findSpace (Reconstruct.space_name_for fp) with
  | some existing =>
    obtain ⟨status,same⟩ := free existing found
    refine ⟨s,commits_bind.mpr ⟨_,s,commits_find_by_name.mpr ⟨rfl,rfl⟩,?_⟩⟩
    rw [found]
    exact commits_require.mpr ⟨⟨status,same⟩,rfl⟩
  | none =>
    have unused : ∀ space ∈ s.embedding_spaces, space.name ≠ Reconstruct.space_name_for fp := by
      intro space member same
      have taken := (findSpace_eq_some s).mpr ⟨member,same⟩
      rw [found] at taken
      cases taken
    have inactive : (SpaceStatus.Populating = .Active → ∀ sp ∈ s.embedding_spaces, sp.status ≠ .Active) := fun same => by cases same
    obtain ⟨t,written⟩ := exists_registered s ⟨Reconstruct.space_name_for fp,fp,.Populating⟩ unused inactive
    refine ⟨t,commits_bind.mpr ⟨_,s,commits_find_by_name.mpr ⟨rfl,rfl⟩,?_⟩⟩
    rw [found]
    exact commits_bind.mpr ⟨(),s,commits_require.mpr ⟨fits,rfl⟩,commits_bind.mpr ⟨_,s,commits_query.mpr ⟨rfl,rfl⟩,
      commits_bind.mpr ⟨(),s,commits_require.mpr ⟨unused,rfl⟩,commits_bind.mpr ⟨(),s,commits_require.mpr ⟨inactive,rfl⟩,
        commits_execute.mpr written⟩⟩⟩⟩

/-- Vectors that are there stay. -/
theorem subset_insertVectors {space_id : String} (rows : List (FactId × Embedding)) (acc : Tables × Nat) :
    acc.1.fact_vectors ⊆ (rows.foldl (insertVector space_id) acc).1.fact_vectors := by
  induction rows generalizing acc with
  | nil => exact List.Subset.refl _
  | cons row rest ih =>
    rw [List.foldl_cons]
    refine List.Subset.trans ?_ (ih _)
    unfold insertVector
    split
    · exact List.Subset.refl _
    · exact List.subset_append_left _ _

/-- Every row of a batch has its vector. -/
theorem filled_insertVectors (space_id : String) {rows : List (FactId × Embedding)} (acc : Tables × Nat) {row : FactId × Embedding}
    (listed : row ∈ rows) : ∃ v ∈ (rows.foldl (insertVector space_id) acc).1.fact_vectors, v.fact_id = row.1 ∧ v.space_id = space_id := by
  induction rows generalizing acc with
  | nil => cases listed
  | cons first rest ih =>
    rw [List.foldl_cons]
    rcases List.mem_cons.mp listed with rfl | later
    · have here : ∃ v ∈ (insertVector space_id acc row).1.fact_vectors, v.fact_id = row.1 ∧ v.space_id = space_id := by
        unfold insertVector
        cases there : vectorIn acc.1 space_id row.1 with
        | none => exact ⟨_,List.mem_append_right _ (List.mem_singleton_self _),rfl,rfl⟩
        | some e =>
          obtain ⟨v,found,_⟩ := Option.map_eq_some_iff.mp there
          have named := List.find?_some found
          simp only [Bool.and_eq_true,beq_iff_eq] at named
          exact ⟨v,List.mem_of_find?_eq_some found,named⟩
      obtain ⟨v,member,named⟩ := here
      exact ⟨v,subset_insertVectors rest _ member,named⟩
    · exact ih _ later

/-- A batch for facts of the store goes into a space that is registered. -/
theorem backfills {space_id : String} {rows : List (FactId × Embedding)} {s : Db} (registered : ∃ sp ∈ s.embedding_spaces, sp.name = space_id)
    (known : ∀ row ∈ rows, s.facts.Has row.1) : ∃ n t, Commits (write_backfill_batch space_id rows) s n t ∧
      t.toTables = (rows.foldl (insertVector space_id) (s.toTables,0)).1 := by
  have keeps : ∀ acc : Tables × Nat, acc.1.Unique → acc.1.ForeignKeys → acc.1.facts = s.facts → acc.1.embedding_spaces = s.embedding_spaces →
      (rows.foldl (insertVector space_id) acc).1.Unique ∧ (rows.foldl (insertVector space_id) acc).1.ForeignKeys := by
    induction rows with
    | nil => exact fun acc unique foreign _ _ => ⟨unique,foreign⟩
    | cons row rest ih =>
      intro acc unique foreign facts spaces
      rw [List.foldl_cons]
      have later := ih (fun row listed => known row (List.mem_cons_of_mem _ listed))
      cases there : vectorIn acc.1 space_id row.1 with
      | some e =>
        have same : insertVector space_id acc row = acc := by
          rw [insertVector,there]
        rw [same]
        exact later acc unique foreign facts spaces
      | none =>
        have added : insertVector space_id acc row =
            ({ acc.1 with fact_vectors := acc.1.fact_vectors ++ [⟨row.1,space_id,row.2⟩] },acc.2 + 1) := by
          rw [insertVector,there]
        rw [added]
        have keys : ((acc.1.fact_vectors ++ [(⟨row.1,space_id,row.2⟩ : FactVector)]).map (fun v => (v.fact_id,v.space_id))).Nodup := by
          rw [List.map_append,List.map_singleton,← List.concat_eq_append]
          refine List.Nodup.concat (fun held => ?_) unique.vectors
          obtain ⟨old,member,same⟩ := List.mem_map.mp held
          obtain ⟨fact_id,space⟩ := Prod.mk.inj same
          exact vectorIn_eq_none.mp there old member fact_id space
        refine later _ (unique.with_spaces unique.spaces unique.one_active keys) (foreign.with_spaces fun v member => ?_) facts spaces
        rcases List.mem_append.mp member with old | new
        · exact ⟨foreign.vector_fact v old,foreign.vector_space v old⟩
        · rw [List.mem_singleton.mp new,facts,spaces]
          exact ⟨known row List.mem_cons_self,registered⟩
  obtain ⟨unique,foreign⟩ := keeps (s.toTables,0) s.unique s.foreign rfl rfl
  obtain ⟨t,written⟩ := exists_db unique foreign
  exact ⟨_,t,commits_bind.mpr ⟨_,s,commits_query.mpr ⟨rfl,rfl⟩,commits_bind.mpr ⟨(),t,commits_execute.mpr written,commits_pure.mpr ⟨rfl,rfl⟩⟩⟩,written⟩

/-- Setting a status keeps the names. -/
theorem map_name_setStatus (t : Tables) (name : String) (status : SpaceStatus) :
    (setStatus t name status).embedding_spaces.map EmbeddingSpace.name = t.embedding_spaces.map EmbeddingSpace.name := by
  unfold setStatus
  rw [List.map_map]
  refine List.map_congr_left fun space _ => ?_
  rw [Function.comp_apply]
  split <;> rfl

/-- The registry with another status is one the schema allows, when a second space is not made active. -/
theorem exists_setStatus (s : Db) (name : String) (status : SpaceStatus)
    (alone : status = .Active → ∀ sp ∈ s.embedding_spaces, sp.status = .Active → sp.name = name) :
    ∃ t : Db, t.toTables = setStatus s.toTables name status := by
  have names : ((setStatus s.toTables name status).embedding_spaces.map EmbeddingSpace.name).Nodup := by
    rw [map_name_setStatus]
    exact s.unique.spaces
  have one_active : ∀ a ∈ (setStatus s.toTables name status).embedding_spaces, ∀ b ∈ (setStatus s.toTables name status).embedding_spaces,
      a.status = .Active → b.status = .Active → a.name = b.name := by
    intro a left b right active active'
    obtain ⟨x,held,rfl⟩ := List.mem_map.mp left
    obtain ⟨y,held',rfl⟩ := List.mem_map.mp right
    by_cases here : x.name = name
    · by_cases there : y.name = name
      · rw [if_pos here,if_pos there]
        exact here.trans there.symm
      · rw [if_pos here] at active ⊢
        rw [if_neg there] at active' ⊢
        exact absurd (alone active y held' active') there
    · by_cases there : y.name = name
      · rw [if_neg here] at active ⊢
        rw [if_pos there] at active' ⊢
        exact absurd (alone active' x held active) here
      · rw [if_neg here] at active ⊢
        rw [if_neg there] at active' ⊢
        exact s.unique.one_active x held y held' active active'
  have registered : ∀ v ∈ s.fact_vectors, s.facts.Has v.fact_id ∧
      ∃ sp ∈ (setStatus s.toTables name status).embedding_spaces, sp.name = v.space_id := by
    intro v member
    obtain ⟨sp,held,named⟩ := s.foreign.vector_space v member
    refine ⟨s.foreign.vector_fact v member,_,List.mem_map_of_mem held,?_⟩
    split <;> exact named
  exact exists_db (s.unique.with_spaces names one_active s.unique.vectors) (s.foreign.with_spaces registered)

/-- The served vectors find room beside the others when none of these is under their name. -/
theorem keys_retain {active : String} {s : Db} (idle : ∀ v ∈ s.fact_vectors, v.space_id ≠ active) :
    ((retain active s.toTables).fact_vectors.map (fun v => (v.fact_id,v.space_id))).Nodup := by
  unfold retain
  rw [List.map_append,List.map_map,List.nodup_append]
  refine ⟨s.unique.vectors,?_,fun key old other fresh same => ?_⟩
  · have nodup := s.facts.keys_nodup
    rw [List.Nodup,List.pairwise_map] at nodup ⊢
    exact nodup.imp fun differ same => differ (Prod.mk.inj same).1
  · obtain ⟨v,member,rfl⟩ := List.mem_map.mp old
    obtain ⟨f,_,rfl⟩ := List.mem_map.mp fresh
    exact idle v member (Prod.mk.inj same).2

/-- A complete space is promoted. -/
theorem promotes {populating : String} {active new : EmbeddingSpace} {s : Db} (rested : Rested s.toTables) (serving : s.activeSpace = some active)
    (named : s.findSpace populating = some new) (status : new.status = .Populating) (complete : unbackfilled s.toTables populating = []) :
    ∃ outcome t, Commits (promote_space populating) s outcome t := by
  obtain ⟨held,active_status⟩ := (activeSpace_eq_some s).mp serving
  obtain ⟨held',called⟩ := (findSpace_eq_some s).mp named
  have apart : active.name ≠ populating := by
    intro same
    rw [space_name_unique s held held' (same.trans called.symm),status] at active_status
    cases active_status
  -- the served vectors are retained
  have keys := keys_retain (rested.idle active serving)
  have registered : ∀ v ∈ (retain active.name s.toTables).fact_vectors, s.facts.Has v.fact_id ∧ ∃ sp ∈ s.embedding_spaces, sp.name = v.space_id := by
    intro v member
    rcases List.mem_append.mp member with old | new
    · exact ⟨s.foreign.vector_fact v old,s.foreign.vector_space v old⟩
    · obtain ⟨f,among,rfl⟩ := List.mem_map.mp new
      exact ⟨⟨f,among,rfl⟩,active,held,rfl⟩
  obtain ⟨m₁,retained⟩ := exists_db (s.unique.with_spaces s.unique.spaces s.unique.one_active keys) (s.foreign.with_spaces registered)
  have retained : m₁.toTables = retain active.name s.toTables := retained
  have spaces₁ : m₁.embedding_spaces = s.embedding_spaces := by rw [retained]; rfl
  -- the vectors of the facts are swapped
  have complete₁ : unbackfilled m₁.toTables populating = [] := by
    rw [retained]
    unfold unbackfilled
    simp only [vectorIn_retain apart]
    exact complete
  obtain ⟨m₂,swapped⟩ := FactStore.exists_updated m₁ (fun _ => true) (FactVectors.swapped m₁.toTables populating) (fun _ => rfl) (fun _ => ⟨rfl,rfl⟩)
  have spaces₂ : m₂.embedding_spaces = s.embedding_spaces := by rw [swapped]; exact spaces₁
  -- the statuses are flipped
  obtain ⟨m₃,demoted⟩ := exists_setStatus m₂ active.name .Deprecated fun same => by cases same
  have none_active : ∀ sp ∈ m₃.embedding_spaces, sp.status ≠ .Active := by
    intro sp member serves
    rw [demoted] at member
    obtain ⟨old,among,rfl⟩ := List.mem_map.mp member
    rw [spaces₂] at among
    by_cases here : old.name = active.name
    · rw [if_pos here] at serves
      cases serves
    · rw [if_neg here] at serves
      exact here (s.unique.one_active old among active held serves active_status)
  obtain ⟨m₄,activated⟩ := exists_setStatus m₃ populating .Active fun _ sp member serves => absurd serves (none_active sp member)
  -- the backfill is dropped
  have nodup := (m₄.unique.vectors.filter fun key => key.2 != populating)
  rw [List.filter_map] at nodup
  have left : ∀ v ∈ m₄.fact_vectors.filter (fun v => v.space_id != populating),
      m₄.facts.Has v.fact_id ∧ ∃ sp ∈ m₄.embedding_spaces, sp.name = v.space_id := fun v member =>
    ⟨m₄.foreign.vector_fact v (List.mem_filter.mp member).1,m₄.foreign.vector_space v (List.mem_filter.mp member).1⟩
  obtain ⟨m₅,dropped⟩ := exists_db (m₄.unique.with_spaces m₄.unique.spaces m₄.unique.one_active nodup) (m₄.foreign.with_spaces left)
  refine ⟨_,m₅,commits_bind.mpr ⟨active,s,commits_servedSpace.mpr ⟨serving,rfl⟩,
    commits_bind.mpr ⟨new,s,commits_populatingSpace.mpr ⟨named,status,rfl⟩,
    commits_bind.mpr ⟨_,s,commits_query.mpr ⟨rfl,rfl⟩,
    commits_bind.mpr ⟨(),s,commits_require.mpr ⟨List.length_eq_zero_iff.mpr complete,rfl⟩,
    commits_bind.mpr ⟨(),m₁,commits_execute.mpr retained,
    commits_bind.mpr ⟨_,m₂,commits_copySwap.mpr ⟨⟨complete₁,swapped⟩,rfl⟩,
    commits_bind.mpr ⟨(),m₃,commits_execute.mpr demoted,
    commits_bind.mpr ⟨(),m₄,?_,
    commits_bind.mpr ⟨(),m₅,commits_execute.mpr dropped,commits_pure.mpr ⟨rfl,rfl⟩⟩⟩⟩⟩⟩⟩⟩⟩⟩⟩
  exact commits_bind.mpr ⟨_,m₃,commits_query.mpr ⟨rfl,rfl⟩,commits_bind.mpr ⟨(),m₃,
    commits_require.mpr ⟨fun sp member _ => .inl (none_active sp member),rfl⟩,commits_execute.mpr activated⟩⟩

end MemoryEngine
