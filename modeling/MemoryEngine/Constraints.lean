import MemoryEngine.SidecarStores
import MemoryEngine.EdgeStore

/-! When a statement commits. A statement rewrites one table; the rest of the
schema stays satisfied on its own, so each statement owes only the constraints
of the rows it writes. -/

namespace MemoryEngine
open Time KeyedTable Transaction

namespace Tables
variable {t : Tables}

theorem Unique.with_facts (unique : t.Unique) (facts : Table Fact) : ({ t with facts := facts } : Tables).Unique :=
  ⟨unique.config,unique.checkpoints,unique.manifest,unique.wisdom,unique.spaces,unique.one_active,unique.vectors,unique.labels⟩

theorem Unique.with_edges (unique : t.Unique) (edges : Table Edge) : ({ t with edges := edges } : Tables).Unique :=
  ⟨unique.config,unique.checkpoints,unique.manifest,unique.wisdom,unique.spaces,unique.one_active,unique.vectors,unique.labels⟩

theorem Unique.with_events (unique : t.Unique) (events : Table Event) : ({ t with events := events } : Tables).Unique :=
  ⟨unique.config,unique.checkpoints,unique.manifest,unique.wisdom,unique.spaces,unique.one_active,unique.vectors,unique.labels⟩

/-- New facts keep the references of the other tables and satisfy their own. -/
theorem ForeignKeys.with_facts (foreign : t.ForeignKeys) {facts : Table Fact} (kept : ∀ id, t.facts.Has id → facts.Has id)
    (own : ∀ f ∈ facts.rows, (∀ e ∈ f.source_event_id, t.events.Has e) ∧ t.scopes.Has f.scope_id) :
    ({ t with facts := facts } : Tables).ForeignKeys where
  event_scope := foreign.event_scope
  fact_event := fun f member => (own f member).1
  fact_scope := fun f member => (own f member).2
  edge_source := fun e member => kept _ (foreign.edge_source e member)
  edge_target := fun e member => kept _ (foreign.edge_target e member)
  edge_scope := foreign.edge_scope
  summary_scope := foreign.summary_scope
  wisdom_fact := fun l member => kept _ (foreign.wisdom_fact l member)
  activity_scope := foreign.activity_scope
  promoted_fact := fun a member f named => kept _ (foreign.promoted_fact a member f named)
  last_activity := foreign.last_activity
  vector_fact := fun v member => kept _ (foreign.vector_fact v member)
  vector_space := foreign.vector_space
  scope_parent := foreign.scope_parent

theorem ForeignKeys.with_edges (foreign : t.ForeignKeys) {edges : Table Edge}
    (own : ∀ e ∈ edges.rows, t.facts.Has e.source_fact_id ∧ t.facts.Has e.target_fact_id ∧ t.scopes.Has e.scope_id) :
    ({ t with edges := edges } : Tables).ForeignKeys where
  event_scope := foreign.event_scope
  fact_event := foreign.fact_event
  fact_scope := foreign.fact_scope
  edge_source := fun e member => (own e member).1
  edge_target := fun e member => (own e member).2.1
  edge_scope := fun e member => (own e member).2.2
  summary_scope := foreign.summary_scope
  wisdom_fact := foreign.wisdom_fact
  activity_scope := foreign.activity_scope
  promoted_fact := foreign.promoted_fact
  last_activity := foreign.last_activity
  vector_fact := foreign.vector_fact
  vector_space := foreign.vector_space
  scope_parent := foreign.scope_parent

theorem ForeignKeys.with_events (foreign : t.ForeignKeys) {events : Table Event} (kept : ∀ id, t.events.Has id → events.Has id)
    (own : ∀ e ∈ events.rows, t.scopes.Has e.scope_id) : ({ t with events := events } : Tables).ForeignKeys where
  event_scope := own
  fact_event := fun f member e named => kept e (foreign.fact_event f member e named)
  fact_scope := foreign.fact_scope
  edge_source := foreign.edge_source
  edge_target := foreign.edge_target
  edge_scope := foreign.edge_scope
  summary_scope := foreign.summary_scope
  wisdom_fact := foreign.wisdom_fact
  activity_scope := foreign.activity_scope
  promoted_fact := foreign.promoted_fact
  last_activity := foreign.last_activity
  vector_fact := foreign.vector_fact
  vector_space := foreign.vector_space
  scope_parent := foreign.scope_parent

theorem ForeignKeys.with_lineage (foreign : t.ForeignKeys) {lineage : Table LineageRow}
    (own : ∀ l ∈ lineage.rows, t.facts.Has l.wisdom_fact_id) : ({ t with lineage := lineage } : Tables).ForeignKeys where
  event_scope := foreign.event_scope
  fact_event := foreign.fact_event
  fact_scope := foreign.fact_scope
  edge_source := foreign.edge_source
  edge_target := foreign.edge_target
  edge_scope := foreign.edge_scope
  summary_scope := foreign.summary_scope
  wisdom_fact := own
  activity_scope := foreign.activity_scope
  promoted_fact := foreign.promoted_fact
  last_activity := foreign.last_activity
  vector_fact := foreign.vector_fact
  vector_space := foreign.vector_space
  scope_parent := foreign.scope_parent

theorem ForeignKeys.with_config (foreign : t.ForeignKeys) (config : List (String × String)) :
    ({ t with config := config } : Tables).ForeignKeys where
  event_scope := foreign.event_scope
  fact_event := foreign.fact_event
  fact_scope := foreign.fact_scope
  edge_source := foreign.edge_source
  edge_target := foreign.edge_target
  edge_scope := foreign.edge_scope
  summary_scope := foreign.summary_scope
  wisdom_fact := foreign.wisdom_fact
  activity_scope := foreign.activity_scope
  promoted_fact := foreign.promoted_fact
  last_activity := foreign.last_activity
  vector_fact := foreign.vector_fact
  vector_space := foreign.vector_space
  scope_parent := foreign.scope_parent

end Tables

/-- Contents that satisfy the schema are the contents of a database. -/
theorem exists_db {tables : Tables} (unique : tables.Unique) (foreign : tables.ForeignKeys) : ∃ db : Db, db.toTables = tables :=
  ⟨⟨tables,unique,foreign⟩,rfl⟩

namespace FactStore
variable {self : SqliteBackend}

/-- The references a new fact makes. -/
def Referenced (t : Tables) (fact : NewFact) : Prop := t.scopes.Has fact.scope_id ∧ ∀ e ∈ fact.source_event_id, t.events.Has e

/-- An insertion commits exactly when the vector fits, the importance is a number
    and the references hold. -/
theorem insert_commits_iff {fact : NewFact} {db : Db} : (∃ id db', Commits (insert self fact) db id db') ↔
    fact.embedding.length = self.embed_dim ∧ fact.base_importance ≠ .nan ∧ Referenced db.toTables fact := by
  constructor
  · rintro ⟨id,db',committed⟩
    obtain ⟨sized,importance,given,_,written⟩ := commits_insert.mp committed
    have foreign := db'.foreign
    rw [written] at foreign
    have member : newRow self fact importance db.facts.nextId ∈ (db.facts.insert (newRow self fact importance)
        (newRow_key self fact importance)).rows := Table.mem_insert.mpr (.inr rfl)
    exact ⟨sized,by rw [given]; simp,foreign.fact_scope _ member,foreign.fact_event _ member⟩
  · rintro ⟨sized,number,scope,event⟩
    cases given : fact.base_importance with
    | nan => exact absurd given number
    | num importance =>
      have own : ∀ f ∈ (db.facts.insert (newRow self fact importance) (newRow_key self fact importance)).rows,
          (∀ e ∈ f.source_event_id, db.events.Has e) ∧ db.scopes.Has f.scope_id := by
        intro f member
        rcases Table.mem_insert.mp member with old | rfl
        · exact ⟨db.foreign.fact_event f old,db.foreign.fact_scope f old⟩
        · exact ⟨event,scope⟩
      have foreign := db.foreign.with_facts (fun id held => by rw [Table.has_insert]; exact .inl held) own
      obtain ⟨db',same⟩ := exists_db (db.unique.with_facts _) foreign
      exact ⟨_,db',commits_insert.mpr ⟨sized,importance,given,rfl,same⟩⟩

/-- Rewriting columns that refer to nothing keeps the schema. -/
theorem exists_updated (db : Db) (sel : Fact → Bool) (change : Fact → Fact) (same : ∀ f, (change f).id = f.id)
    (apart : ∀ f, (change f).scope_id = f.scope_id ∧ (change f).source_event_id = f.source_event_id) :
    ∃ db' : Db, db'.toTables = { db.toTables with facts := db.facts.update sel change same } := by
  refine exists_db (db.unique.with_facts _) (db.foreign.with_facts (fun id held => ?_) fun f member => ?_)
  · rwa [Table.has_update]
  · obtain ⟨old,held,rfl⟩ := Table.mem_update.mp member
    have before := And.intro (db.foreign.fact_event old held) (db.foreign.fact_scope old held)
    split
    · rwa [(apart old).1,(apart old).2]
    · exact before

theorem expire_commits {id : FactId} {db : Db} (now : DateTime) (active : db.IsActive id) : ∃ db', Commits (expire id now) db () db' := by
  obtain ⟨db',written⟩ := exists_updated db (fun f => f.id == id && f.t_expired.isNone) (fun f => { f with t_expired := some now })
    (fun _ => rfl) (fun _ => ⟨rfl,rfl⟩)
  exact ⟨db',commits_updateActive.mpr ⟨active,written⟩⟩

theorem update_base_importance_commits {id : FactId} {db : Db} (importance : SqlReal) (held : db.facts.Has id) :
    ∃ db', Commits (update_base_importance id (.num importance)) db () db' := by
  obtain ⟨db',written⟩ := exists_updated db (fun f => f.id == id) (fun f => { f with base_importance := importance })
    (fun _ => rfl) (fun _ => ⟨rfl,rfl⟩)
  exact ⟨db',commits_updateRow.mpr ⟨held,written⟩⟩

theorem merge_metadata_commits {id : FactId} {db : Db} {f : Fact} (fields : List (String × Json)) (member : f ∈ db.facts.rows)
    (same : f.id = id) (parses : f.metadata.Parses) : ∃ db', Commits (merge_metadata id (.obj fields)) db () db' := by
  obtain ⟨db',written⟩ := exists_updated db (fun f => f.id == id) (fun f => { f with metadata := mergedMetadata f.metadata fields })
    (fun _ => rfl) (fun _ => ⟨rfl,rfl⟩)
  exact ⟨db',commits_merge_metadata.mpr ⟨⟨f,member,same,parses⟩,written⟩⟩

end FactStore

/-- An edge commits when its ends and its scope exist. -/
theorem EdgeStore.insert_commits {weight : SqlReal} (db : Db) (edge : NewEdge) (weighed : edge.weight = .num weight)
    (source : db.facts.Has edge.source_fact_id) (target : db.facts.Has edge.target_fact_id) (scope : db.scopes.Has edge.scope_id) :
    ∃ id db', Commits (EdgeStore.insert edge) db id db' := by
  have unique := db.unique.with_edges (db.edges.insert (newRow edge weight) (newRow_key edge weight))
  have foreign : ({ db.toTables with edges := db.edges.insert (newRow edge weight) (newRow_key edge weight) } : Tables).ForeignKeys := by
    refine db.foreign.with_edges fun e member => ?_
    rcases Table.mem_insert.mp member with old | rfl
    · exact ⟨db.foreign.edge_source e old,db.foreign.edge_target e old,db.foreign.edge_scope e old⟩
    · exact ⟨source,target,scope⟩
  obtain ⟨db',same⟩ := exists_db unique foreign
  exact ⟨_,db',commits_insert.mpr ⟨weight,weighed,rfl,same⟩⟩

/-- The edges of a fact can always be expired. -/
theorem EdgeStore.expire_by_fact_commits (fact_id : FactId) (now : DateTime) (db : Db) : ∃ n db', Commits (expire_by_fact fact_id now) db n db' := by
  have foreign : (expireRows db.toTables (incident fact_id) now).ForeignKeys := by
    refine db.foreign.with_edges fun e member => ?_
    obtain ⟨old,held,rfl⟩ := Table.mem_update.mp member
    have before := And.intro (db.foreign.edge_source old held) (And.intro (db.foreign.edge_target old held) (db.foreign.edge_scope old held))
    split <;> exact before
  obtain ⟨db',written⟩ := exists_db (db.unique.with_edges _) foreign
  exact ⟨_,db',commits_expire_by_fact.mpr ⟨rfl,written⟩⟩

theorem EventStore.commits_insert {self : SqliteBackend} {event : NewEvent} {db db' : Db} {id : Int} :
    Commits (EventStore.insert self event) db id db' ↔ id = db.events.nextId ∧
      db'.toTables = { db.toTables with events := db.events.insert (newRow self event) (newRow_key self event) } := by
  simp only [insert,commits_bind,commits_query,commits_execute,commits_pure]
  constructor
  · rintro ⟨_,_,⟨rfl,rfl⟩,_,_,written,rfl,rfl⟩
    exact ⟨rfl,written⟩
  · rintro ⟨rfl,written⟩
    exact ⟨_,_,⟨rfl,rfl⟩,(),_,written,rfl,rfl⟩

/-- An event commits when its scope exists. -/
theorem EventStore.insert_commits (self : SqliteBackend) {event : NewEvent} {db : Db} (scope : db.scopes.Has event.scope_id) :
    ∃ id db', Commits (EventStore.insert self event) db id db' := by
  have unique := db.unique.with_events (db.events.insert (newRow self event) (newRow_key self event))
  have foreign : ({ db.toTables with events := db.events.insert (newRow self event) (newRow_key self event) } : Tables).ForeignKeys := by
    refine db.foreign.with_events (fun id held => by rw [Table.has_insert]; exact .inl held) fun e member => ?_
    rcases Table.mem_insert.mp member with old | rfl
    · exact db.foreign.event_scope e old
    · exact scope
  obtain ⟨db',same⟩ := exists_db unique foreign
  exact ⟨_,db',EventStore.commits_insert.mpr ⟨rfl,same⟩⟩

namespace LineageStore

theorem found_iff (db : Db) (ids : List FactId) :
    (ids.dedup.filter (fun id => decide (db.facts.Has id))).length = ids.dedup.length ↔ ∀ id ∈ ids, db.facts.Has id := by
  rw [List.length_filter_eq_length_iff]
  simp

theorem commits_insert {record : NewLineageRecord} {provenance : PromotionProvenance} {db db' : Db} {id : Int} :
    Commits (insert record provenance) db id db' ↔ db.IsActive record.wisdom_fact_id ∧
      (∀ src ∈ record.source_fact_ids, db.facts.Has src) ∧ id = db.lineage.nextId ∧
        db'.toTables = { db.toTables with lineage := db.lineage.insert (newRow record provenance) (newRow_key record provenance) } := by
  simp only [insert,commits_bind,commits_query,commits_require,commits_execute,commits_pure]
  constructor
  · rintro ⟨_,_,⟨rfl,rfl⟩,_,_,⟨active,rfl⟩,_,_,⟨rfl,rfl⟩,_,_,⟨found,rfl⟩,_,_,⟨rfl,rfl⟩,_,_,written,rfl,rfl⟩
    exact ⟨of_decide_eq_true active,(found_iff _ _).mp found,rfl,written⟩
  · rintro ⟨active,found,rfl,written⟩
    exact ⟨_,_,⟨rfl,rfl⟩,(),_,⟨decide_eq_true active,rfl⟩,_,_,⟨rfl,rfl⟩,(),_,⟨(found_iff _ _).mpr found,rfl⟩,_,_,⟨rfl,rfl⟩,
      (),_,written,rfl,rfl⟩

/-- A record commits for an active fact that has none yet and existing sources. -/
theorem insert_commits {db : Db} (record : NewLineageRecord) (provenance : PromotionProvenance)
    (active : db.IsActive record.wisdom_fact_id) (sources : ∀ src ∈ record.source_fact_ids, db.facts.Has src)
    (first : ∀ l ∈ db.lineage.rows, l.wisdom_fact_id ≠ record.wisdom_fact_id) :
    ∃ id db', Commits (insert record provenance) db id db' := by
  have unique : ({ db.toTables with lineage := db.lineage.insert (newRow record provenance) (newRow_key record provenance) } : Tables).Unique := by
    refine ⟨db.unique.config,db.unique.checkpoints,db.unique.manifest,?_,db.unique.spaces,db.unique.one_active,
      db.unique.vectors,db.unique.labels⟩
    rw [Table.insert_rows,List.map_append,List.map_singleton]
    rw [← List.concat_eq_append]
    refine List.Nodup.concat (fun old => ?_) db.unique.wisdom
    obtain ⟨l,member,same⟩ := List.mem_map.mp old
    exact first l member same
  have foreign : ({ db.toTables with lineage := db.lineage.insert (newRow record provenance) (newRow_key record provenance) } : Tables).ForeignKeys := by
    refine db.foreign.with_lineage fun l member => ?_
    rcases Table.mem_insert.mp member with old | rfl
    · exact db.foreign.wisdom_fact l old
    · obtain ⟨f,held,same,_⟩ := active
      exact ⟨f,held,same⟩
  obtain ⟨db',same⟩ := exists_db unique foreign
  exact ⟨_,db',commits_insert.mpr ⟨active,sources,rfl,same⟩⟩

end LineageStore

namespace Config

theorem put_keys (key value : String) (config : List (String × String)) :
    (put key value config).map Prod.fst = if key ∈ config.map Prod.fst then config.map Prod.fst else config.map Prod.fst ++ [key] := by
  induction config with
  | nil => simp [put]
  | cons head rest ih =>
    obtain ⟨k,v⟩ := head
    unfold put
    by_cases same : k = key
    · simp [same]
    · rw [if_neg same,List.map_cons,ih]
      by_cases listed : key ∈ rest.map Prod.fst
      · simp [listed]
      · have apart : ¬ key = k := fun equal => same equal.symm
        simp only [List.map_cons,List.mem_cons,apart,listed,or_self,if_false,List.cons_append]

theorem lookup_put_ne {key other value : String} (apart : other ≠ key) (config : List (String × String)) :
    (put key value config).lookup other = config.lookup other := by
  induction config with
  | nil =>
    have miss : (other == key) = false := beq_eq_false_iff_ne.mpr apart
    rw [put,List.lookup_cons,miss]
  | cons head rest ih =>
    obtain ⟨k,v⟩ := head
    unfold put
    by_cases same : k = key
    · subst same
      have miss : (other == k) = false := beq_eq_false_iff_ne.mpr apart
      rw [if_pos rfl,List.lookup_cons,List.lookup_cons,miss]
    · rw [if_neg same,List.lookup_cons,List.lookup_cons,ih]

/-- A key can always be set. -/
theorem set_config_commits (key value : String) (db : Db) : ∃ db', Commits (set_config key value) db () db' := by
  have unique : ({ db.toTables with config := put key value db.config } : Tables).Unique := by
    refine ⟨?_,db.unique.checkpoints,db.unique.manifest,db.unique.wisdom,db.unique.spaces,db.unique.one_active,
      db.unique.vectors,db.unique.labels⟩
    rw [put_keys]
    split
    · exact db.unique.config
    · rename_i fresh
      rw [← List.concat_eq_append]
      exact List.Nodup.concat fresh db.unique.config
  obtain ⟨db',same⟩ := exists_db unique (db.foreign.with_config _)
  exact ⟨db',commits_execute.mpr same⟩

end Config
end MemoryEngine
