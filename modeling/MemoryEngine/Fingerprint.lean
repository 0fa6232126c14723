import MemoryEngine.Changes

/-! The fingerprint of a database. Keys only grow and an expiry is never taken back,
so the three maxima and the three counts tell apart any two points of a history at
which the active edges, the active facts or the scopes differ. -/

namespace MemoryEngine
open Time KeyedTable Transaction

structure DbFingerprint where
  max_fact_id : Int
  active_fact_count : Int
  max_edge_id : Int
  active_edge_count : Int
  max_scope_id : Int
  scope_count : Int
deriving DecidableEq

def Fact.active (f : Fact) : Bool := f.t_expired.isNone

def Tables.fingerprint (t : Tables) : DbFingerprint where
  max_fact_id := t.facts.maxKey
  active_fact_count := (t.facts.liveRows Fact.active).length
  max_edge_id := t.edges.maxKey
  active_edge_count := (t.edges.liveRows Edge.active).length
  max_scope_id := t.scopes.maxKey
  scope_count := (t.scopes.liveRows fun _ => true).length

/-- One query with subselects. -/
def read_fingerprint : Sql DbFingerprint := query Tables.fingerprint

/-- A later version of a fact, perhaps with another vector. -/
def Fact.Later (f f' : Fact) : Prop := f'.t_expired = none → f.t_expired = none

/-- A later state of the three tables behind the fingerprint. -/
structure Tables.Ages (s t : Tables) : Prop where
  facts : s.facts.Ages Fact.Later t.facts
  edges : s.edges.Ages Edge.Kept t.edges
  scopes : s.scopes.Ages Eq t.scopes

namespace Tables.Ages

theorem fact_refl (f : Fact) : f.Later f := fun active => active

theorem refl (t : Tables) : Ages t t :=
  ⟨Table.Ages.refl fact_refl _,Table.Ages.refl Edge.Kept.refl _,Table.Ages.refl (fun _ => rfl) _⟩

theorem trans {s m t : Tables} (first : Ages s m) (second : Ages m t) : Ages s t where
  facts := first.facts.trans (fun _ _ _ early late active => early (late active)) second.facts
  edges := by
    refine first.edges.trans (fun a b c early late => ?_) second.edges
    exact ⟨late.snapshot.trans early.snapshot,fun active => early.expired (late.expired active)⟩
  scopes := first.scopes.trans (fun _ _ _ early late => early.trans late) second.scopes

/-- Tables that stand as they were. -/
theorem same {s t : Tables} (facts : t.facts = s.facts) (edges : t.edges = s.edges) (scopes : t.scopes = s.scopes) : Ages s t := by
  have unchanged := refl s
  exact ⟨facts ▸ unchanged.facts,edges ▸ unchanged.edges,scopes ▸ unchanged.scopes⟩

/-- Each change leads to a later state. -/
theorem of_change {embed_dim expected_dim : Nat} {s t : Tables} (change : Change embed_dim expected_dim s t) : Ages s t := by
  have unchanged := refl s
  cases change with
  | insert_fact row tagged sized => exact { unchanged with facts := Table.Ages.insert fact_refl _ row tagged }
  | update_facts sel change same kept =>
    exact { unchanged with facts := Table.Ages.update fact_refl _ same fun f _ selected => (kept f selected).expired }
  | delete_facts sel => exact ⟨Table.Ages.delete fact_refl _ _,unchanged.edges,unchanged.scopes⟩
  | insert_edge row tagged => exact { unchanged with edges := Table.Ages.insert Edge.Kept.refl _ row tagged }
  | expire_edges sel now =>
    have edges : s.edges.Ages Edge.Kept (s.edges.update (fun e => sel e && e.active) (fun e => { e with t_expired := some now })) := by
      refine Table.Ages.update Edge.Kept.refl _ _ fun e _ selected => ?_
      simp only [Bool.and_eq_true,Edge.active,Option.isNone_iff_eq_none] at selected
      exact ⟨rfl,fun _ => selected.2⟩
    exact ⟨unchanged.facts,edges,unchanged.scopes⟩
  | delete_edges sel => exact { unchanged with edges := Table.Ages.delete Edge.Kept.refl _ _ }
  | insert_scope row tagged => exact { unchanged with scopes := Table.Ages.insert (fun _ => rfl) _ row tagged }
  | beside beside => exact same beside.facts beside.edges beside.scopes
  | _ => exact same rfl rfl rfl

theorem of_changes {embed_dim expected_dim : Nat} {s t : Tables} (changes : Changes embed_dim expected_dim s t) : Ages s t :=
  changes.respects refl (fun _ _ _ => trans) fun _ _ => of_change

end Tables.Ages

/-- A statement that leaves facts, edges and scopes alone. -/
theorem ages_of_leaves {α : Type} {x : Sql α} (leaves : Leaves (fun t => (t.facts,t.edges,t.scopes)) x) {s t : Db} {a : α}
    (committed : Commits x s a t) : s.toTables.Ages t.toTables := by
  have same := leaves s a t committed
  simp only [Prod.mk.injEq] at same
  exact .same same.1 same.2.1 same.2.2

namespace EmbeddingSpaces
variable {γ : Type} {part : Tables → γ}

theorem leaves_insertRow (apart : ∀ t spaces, part { t with embedding_spaces := spaces } = part t) (space : EmbeddingSpace) :
    Leaves part (insertRow space) :=
  leaves_bind leaves_require fun _ => leaves_bind leaves_query fun _ => leaves_bind leaves_require fun _ =>
    leaves_bind leaves_require fun _ => leaves_execute fun _ => apart _ _

theorem leaves_begin_populating (apart : ∀ t spaces, part { t with embedding_spaces := spaces } = part t) (space : EmbeddingSpace) :
    Leaves part (begin_populating space) := by
  refine leaves_bind leaves_query fun found => ?_
  cases found with
  | none => exact leaves_insertRow apart _
  | some existing => exact leaves_require

theorem leaves_upsert_active_fingerprint (apart : ∀ t spaces, part { t with embedding_spaces := spaces } = part t)
    (fp : EmbeddingFingerprint) : Leaves part (upsert_active_fingerprint fp) := by
  refine leaves_bind leaves_require fun _ => leaves_bind leaves_query fun active => ?_
  cases active with
  | some _ => exact leaves_execute fun _ => apart _ _
  | none => exact leaves_bind leaves_query fun _ => leaves_bind leaves_require fun _ => leaves_execute fun _ => apart _ _

end EmbeddingSpaces

namespace FactVectors

theorem leaves_write_backfill_batch {γ : Type} {part : Tables → γ} (apart : ∀ t vectors, part { t with fact_vectors := vectors } = part t)
    (space : String) (rows : List (FactId × Embedding)) : Leaves part (write_backfill_batch space rows) := by
  refine leaves_bind leaves_query fun _ => leaves_bind (leaves_execute fun t => ?_) fun _ => leaves_pure _
  obtain ⟨vectors,written⟩ := foldl_insertVector space rows (t,0)
  rw [written]
  exact apart _ _

theorem promote_space_ages {populating : String} {s t : Db} {outcome : PromoteOutcome}
    (committed : Commits (promote_space populating) s outcome t) : s.toTables.Ages t.toTables := by
  obtain ⟨active,new,_,_,_,_,written,_⟩ := commits_promote_space committed
  have unchanged := Tables.Ages.refl s.toTables
  have facts : s.facts.Ages Fact.Later (swappedFacts s.toTables populating) :=
    Table.Ages.update Tables.Ages.fact_refl _ _ fun _ _ _ active => active
  rw [written]
  exact ⟨facts,unchanged.edges,unchanged.scopes⟩

end FactVectors

/-- What lies apart from spaces and vectors, those of the facts included, is left by the calls
    on the spaces. -/
theorem PortWrite.leaves_onSpaces {γ : Type} {part : Tables → γ} (spaces : ∀ t spaces, part { t with embedding_spaces := spaces } = part t)
    (vectors : ∀ t vectors, part { t with fact_vectors := vectors } = part t)
    (swaps : ∀ t space_id, part { t with facts := FactVectors.swappedFacts t space_id } = part t) {self : SqliteBackend} {call : PortWrite} (on : call.OnSpaces) :
    Leaves part (call.run self) := by
  cases call with
  | store_embedding_fingerprint fp => exact EmbeddingSpaces.leaves_upsert_active_fingerprint spaces fp
  | begin_populating_space name fingerprint => exact EmbeddingSpaces.leaves_begin_populating spaces _
  | write_backfill_batch space rows =>
    exact leaves_bind (FactVectors.leaves_write_backfill_batch vectors space rows) fun _ => leaves_pure _
  | promote_space populating =>
    intro s u t committed
    obtain ⟨outcome,m,swapped,last⟩ := commits_bind.mp committed
    obtain ⟨_,rfl⟩ := commits_pure.mp last
    obtain ⟨active,new,_,_,_,_,written,_⟩ := FactVectors.commits_promote_space swapped
    rw [written]
    exact (spaces _ _).trans ((vectors _ _).trans (swaps _ _))
  | deprecate_space name => exact leaves_execute fun t => spaces t (EmbeddingSpaces.setStatus t name .Deprecated).embedding_spaces
  | _ => cases on

/-- Every call of the port leads to a later state. -/
theorem PortWrite.ages (self : SqliteBackend) {call : PortWrite} {s t : Db} (committed : Commits (call.run self) s () t) :
    s.toTables.Ages t.toTables := by
  by_cases ordinary : call.OnSpaces
  · cases call with
    | store_embedding_fingerprint fp =>
      exact ages_of_leaves (EmbeddingSpaces.leaves_upsert_active_fingerprint (fun _ _ => rfl) fp) committed
    | begin_populating_space name fingerprint =>
      exact ages_of_leaves (EmbeddingSpaces.leaves_begin_populating (fun _ _ => rfl) _) committed
    | write_backfill_batch space rows =>
      exact ages_of_leaves (leaves_bind (FactVectors.leaves_write_backfill_batch (fun _ _ => rfl) space rows) fun _ => leaves_pure _) committed
    | promote_space populating =>
      obtain ⟨outcome,m,promoted,last⟩ := commits_bind.mp committed
      obtain ⟨_,rfl⟩ := commits_pure.mp last
      exact FactVectors.promote_space_ages promoted
    | deprecate_space name =>
      have leaves : Leaves (fun t => (t.facts,t.edges,t.scopes)) (EmbeddingSpaces.deprecate_space name) := leaves_execute fun _ => rfl
      exact ages_of_leaves leaves committed
    | _ => cases ordinary
  · exact .of_changes (PortWrite.makes self ordinary s () t committed)

/-- A run of port calls on one database, each by a handle of its own. A call that
    fails leaves the database as it was. -/
inductive PortRun (s : Db) : Db → Prop where
  | start : PortRun s s
  | call {m t : Db} (before : PortRun s m) (self : SqliteBackend) (call : PortWrite) (committed : Commits (call.run self) m () t) :
      PortRun s t

theorem PortRun.ages {s t : Db} (run : PortRun s t) : s.toTables.Ages t.toTables := by
  induction run with
  | start => exact .refl _
  | call before self call committed ih => exact ih.trans (PortWrite.ages self committed)

def Tables.activeEdgeIds (t : Tables) : Set Int := { id | ∃ e ∈ t.edges.rows, e.t_expired = none ∧ e.id = id }
def Tables.activeFactIds (t : Tables) : Set FactId := { id | ∃ f ∈ t.facts.rows, f.t_expired = none ∧ f.id = id }
def Tables.scopeIds (t : Tables) : Set Int := { id | ∃ n ∈ t.scopes.rows, n.id = id }

/-- The rows that count, as a set of what they are mapped to. -/
theorem mem_liveRows_map {ρ β : Type} [Row ρ] {live : ρ → Bool} {f : ρ → β} {t : Table ρ} {b : β} :
    b ∈ (t.liveRows live).map f ↔ ∃ row ∈ t.rows, live row = true ∧ f row = b := by
  simp [Table.liveRows,and_assoc]

namespace Tables.Ages
variable {s t : Tables}

/-- Equal fingerprints mean equal active edges. -/
theorem active_edges (ages : Ages s t) (same : t.fingerprint = s.fingerprint) :
    (t.edges.liveRows Edge.active).map Edge.snapshot = (s.edges.liveRows Edge.active).map Edge.snapshot := by
  refine ages.edges.live_eq (fun a b kept alive => ?_) (fun a b _ kept => kept.snapshot) (congrArg DbFingerprint.max_edge_id same)
    (Int.ofNat.inj (congrArg DbFingerprint.active_edge_count same))
  simp only [Edge.active,Option.isNone_iff_eq_none] at alive ⊢
  exact kept.expired alive

theorem active_facts (ages : Ages s t) (same : t.fingerprint = s.fingerprint) :
    (t.facts.liveRows Fact.active).map Fact.id = (s.facts.liveRows Fact.active).map Fact.id := by
  refine ages.facts.live_eq (fun a b later alive => ?_) (fun a b keyed _ => keyed.symm) (congrArg DbFingerprint.max_fact_id same)
    (Int.ofNat.inj (congrArg DbFingerprint.active_fact_count same))
  simp only [Fact.active,Option.isNone_iff_eq_none] at alive ⊢
  exact later alive

theorem scopes_eq (ages : Ages s t) (same : t.fingerprint = s.fingerprint) : t.scopes.rows = s.scopes.rows := by
  have rows (table : Table ScopeNode) : (table.liveRows fun _ => true).map id = table.rows := by simp [Table.liveRows]
  rw [← rows t.scopes,← rows s.scopes]
  exact ages.scopes.live_eq (fun _ _ _ alive => alive) (fun a b _ unchanged => unchanged.symm) (congrArg DbFingerprint.max_scope_id same)
    (Int.ofNat.inj (congrArg DbFingerprint.scope_count same))

end Tables.Ages

/-- Two points of a history with one fingerprint have the same active edges, the same
    active facts and the same scopes. -/
theorem fingerprint_sound {s t : Db} {a b : DbFingerprint} (run : PortRun s t) (earlier : Commits read_fingerprint s a s)
    (later : Commits read_fingerprint t b t) (same : a = b) :
    s.activeEdgeIds = t.activeEdgeIds ∧ s.activeFactIds = t.activeFactIds ∧ s.scopeIds = t.scopeIds := by
  obtain ⟨rfl,_⟩ := commits_query.mp earlier
  obtain ⟨rfl,_⟩ := commits_query.mp later
  have edges := run.ages.active_edges same.symm
  have facts := run.ages.active_facts same.symm
  have scopes := run.ages.scopes_eq same.symm
  refine ⟨?_,?_,?_⟩
  · have ids := congrArg (List.map GraphEdgeSnapshot.edge_id) edges
    rw [List.map_map,List.map_map] at ids
    ext id
    have listed : id ∈ (t.edges.liveRows Edge.active).map (GraphEdgeSnapshot.edge_id ∘ Edge.snapshot) ↔
        id ∈ (s.edges.liveRows Edge.active).map (GraphEdgeSnapshot.edge_id ∘ Edge.snapshot) := by rw [ids]
    simpa [mem_liveRows_map,Tables.activeEdgeIds,Edge.active,Edge.snapshot] using listed.symm
  · ext id
    have listed : id ∈ (t.facts.liveRows Fact.active).map Fact.id ↔ id ∈ (s.facts.liveRows Fact.active).map Fact.id := by rw [facts]
    simpa [mem_liveRows_map,Tables.activeFactIds,Fact.active] using listed.symm
  · ext id
    rw [Tables.scopeIds,Tables.scopeIds,scopes]

/-- Pinning a fact changes a row and keeps the fingerprint. -/
theorem fingerprint_sound_sample : ∃ t, PortRun Sample.engine.storage t ∧ Sample.engine.storage.activeEdgeIds = t.activeEdgeIds ∧
    Sample.engine.storage.activeFactIds = t.activeFactIds ∧ Sample.engine.storage.scopeIds = t.scopeIds := by
  have ran : Ends ((PortWrite.set_fact_pinned 1 true).run Sample.backend) Sample.engine.storage
      (fun _ t => decide (Sample.engine.storage.toTables.fingerprint = t.toTables.fingerprint)) = true := by decide +kernel
  obtain ⟨_,t,pinned,same⟩ := commits_of_ends ran
  have run : PortRun Sample.engine.storage t := .call .start Sample.backend _ pinned
  exact ⟨t,run,fingerprint_sound run (commits_query.mpr ⟨rfl,rfl⟩) (commits_query.mpr ⟨rfl,rfl⟩) (of_decide_eq_true same)⟩

end MemoryEngine
