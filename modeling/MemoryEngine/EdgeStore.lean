import MemoryEngine.FactStore
import MemoryEngine.MemoryGraph

/-! Statements on the `edges` table and their effect on the active edges, the
set that the in-memory graph mirrors. -/

namespace MemoryEngine
open Time KeyedTable Transaction

def Edge.Readable (e : Edge) : Prop := e.t_created.Readable ∧ ∀ t ∈ e.t_expired, t.Readable

instance (e : Edge) : Decidable e.Readable := inferInstanceAs (Decidable (_ ∧ _))

def rows_to_edges : List Edge → Except MemoryError (List Edge) := readRows Edge.Readable

def Edge.active (e : Edge) : Bool := e.t_expired.isNone

/-- The edges with `t_expired IS NULL`. -/
def Tables.activeEdges (t : Tables) : Multiset GraphEdgeSnapshot :=
  ((t.edges.rows.filter Edge.active).map Edge.snapshot : List GraphEdgeSnapshot)

/-- `(edge_id, source, target)` of the edges with `t_expired IS NULL`. -/
def Tables.activeTriples (t : Tables) : Multiset (Int × FactId × FactId) :=
  t.activeEdges.map GraphEdgeSnapshot.triple

theorem mem_activeEdges {t : Tables} {s : GraphEdgeSnapshot} :
    s ∈ t.activeEdges ↔ ∃ e ∈ t.edges.rows, e.t_expired = none ∧ s = e.snapshot := by
  simp only [Tables.activeEdges,Multiset.mem_coe,List.mem_map,List.mem_filter,Edge.active,Option.isNone_iff_eq_none]
  constructor
  · rintro ⟨e,⟨member,active⟩,rfl⟩
    exact ⟨e,member,active,rfl⟩
  · rintro ⟨e,member,active,rfl⟩
    exact ⟨e,⟨member,active⟩,rfl⟩

/-- Active edges have distinct ids. -/
theorem activeEdges_ids_nodup (t : Tables) : (t.activeEdges.map GraphEdgeSnapshot.edge_id).Nodup := by
  have ids : ((t.edges.rows.filter Edge.active).map Edge.id).Nodup :=
    t.edges.keys_nodup.sublist (List.filter_sublist.map _)
  rw [Tables.activeEdges,Multiset.map_coe,Multiset.coe_nodup,List.map_map]
  exact ids

theorem activeEdges_congr {t t' : Tables} (same : t'.edges = t.edges) : t'.activeEdges = t.activeEdges := by
  rw [Tables.activeEdges,Tables.activeEdges,same]

theorem edge_id_lt_next {t : Tables} {s : GraphEdgeSnapshot} (member : s ∈ t.activeEdges) : s.edge_id < t.edges.nextId := by
  obtain ⟨e,held,_,rfl⟩ := mem_activeEdges.mp member
  exact t.edges.nextId_fresh held

namespace EdgeStore

def newRow (edge : NewEdge) (weight : SqlReal) (id : Int) : Edge where
  id := id
  source_fact_id := edge.source_fact_id
  target_fact_id := edge.target_fact_id
  relation_type := RelationType.from edge.relation_type.as_str
  weight := weight
  t_created := edge.t_created
  t_expired := edge.t_expired
  scope_id := edge.scope_id

theorem newRow_key (edge : NewEdge) (weight : SqlReal) (id : Int) : Row.key (newRow edge weight id) = id := rfl

def insert (edge : NewEdge) : Sql Int :=
  match edge.weight with
  | .nan => throw (.Storage "NOT NULL constraint failed: edges.weight")
  | .num weight => do
    let id ← query (·.edges.nextId)
    execute fun t => { t with edges := t.edges.insert (newRow edge weight) (newRow_key edge weight) }
    return id

def expireRows (t : Tables) (sel : Edge → Bool) (now : DateTime) : Tables :=
  { t with edges := t.edges.update (fun e => sel e && e.active) (fun e => { e with t_expired := some now }) }

def expire (id : Int) (now : DateTime) : Sql Unit := do
  let found ← query fun t => t.edges.rows.any (fun e => e.id == id && e.active)
  execute fun t => expireRows t (fun e => e.id == id) now
  require (found = true) (.NotFound s!"edge {id}")

def incident (fact_id : FactId) (e : Edge) : Bool := e.source_fact_id == fact_id || e.target_fact_id == fact_id

def expire_by_fact (fact_id : FactId) (now : DateTime) : Sql Nat := do
  let count ← query fun t => t.edges.rows.countP (fun e => incident fact_id e && e.active)
  execute fun t => expireRows t (incident fact_id) now
  return count

def list_active : Sql (List Edge) := do
  let rows ← query fun t => t.edges.rows.filter Edge.active
  rows_to_edges rows

/-- Some active edge of the relation joins the two facts, both of them listed. -/
def list_active_pairs_by_facts (fact_ids : List FactId) (relation_type : String) : Sql (List (FactId × FactId)) :=
  query fun t => (t.edges.rows.filter (fun e => e.active && fact_ids.contains e.source_fact_id &&
    fact_ids.contains e.target_fact_id && e.relation_type.as_str == relation_type)).map
      (fun e => (e.source_fact_id,e.target_fact_id))

def list_internal_by_facts (fact_ids : List FactId) : Sql (List Edge) := do
  let rows ← query fun t => t.edges.rows.filter
    (fun e => fact_ids.contains e.source_fact_id && fact_ids.contains e.target_fact_id)
  rows_to_edges rows

/-- Delete every edge with an end in the list. -/
def hard_delete_incident_to_facts (fact_ids : List FactId) : Sql Nat := do
  let sel := fun e : Edge => fact_ids.contains e.source_fact_id || fact_ids.contains e.target_fact_id
  let count ← query fun t => t.edges.rows.countP sel
  execute fun t => { t with edges := t.edges.delete sel }
  return count

theorem commits_insert {edge : NewEdge} {db db' : Db} {id : Int} :
    Commits (insert edge) db id db' ↔ ∃ weight, edge.weight = .num weight ∧ id = db.edges.nextId ∧
      db'.toTables = { db.toTables with edges := db.edges.insert (newRow edge weight) (newRow_key edge weight) } := by
  cases given : edge.weight with
  | nan => simp [insert,given]
  | num weight =>
    simp only [insert,given,commits_bind,commits_query,commits_execute,commits_pure]
    constructor
    · rintro ⟨_,_,⟨rfl,rfl⟩,_,_,written,rfl,rfl⟩
      exact ⟨weight,rfl,rfl,written⟩
    · rintro ⟨_,same,rfl,written⟩
      cases same
      exact ⟨_,_,⟨rfl,rfl⟩,(),_,written,rfl,rfl⟩

theorem commits_expire {id : Int} {now : DateTime} {db db' : Db} {u : Unit} :
    Commits (expire id now) db u db' ↔ (∃ e ∈ db.edges.rows, e.id = id ∧ e.t_expired = none) ∧
      db'.toTables = expireRows db.toTables (fun e => e.id == id) now := by
  have any : (db.edges.rows.any (fun e => e.id == id && e.active)) = true ↔
      ∃ e ∈ db.edges.rows, e.id = id ∧ e.t_expired = none := by
    simp [Edge.active]
  simp only [expire,commits_bind,commits_query,commits_execute,commits_require]
  constructor
  · rintro ⟨_,_,⟨rfl,rfl⟩,_,_,written,found,rfl⟩
    exact ⟨any.mp found,written⟩
  · rintro ⟨found,written⟩
    exact ⟨_,_,⟨rfl,rfl⟩,(),_,written,any.mpr found,rfl⟩

theorem commits_expire_by_fact {fact_id : FactId} {now : DateTime} {db db' : Db} {n : Nat} :
    Commits (expire_by_fact fact_id now) db n db' ↔
      n = db.edges.rows.countP (fun e => incident fact_id e && e.active) ∧
        db'.toTables = expireRows db.toTables (incident fact_id) now := by
  simp only [expire_by_fact,commits_bind,commits_query,commits_execute,commits_pure]
  constructor
  · rintro ⟨_,_,⟨rfl,rfl⟩,_,_,written,rfl,rfl⟩
    exact ⟨rfl,written⟩
  · rintro ⟨rfl,written⟩
    exact ⟨_,_,⟨rfl,rfl⟩,(),_,written,rfl,rfl⟩

theorem commits_list_active {db db' : Db} {edges : List Edge} :
    Commits list_active db edges db' ↔
      edges = db.edges.rows.filter Edge.active ∧ (∀ e ∈ edges, e.Readable) ∧ db' = db := by
  simp only [list_active,commits_bind,commits_query,commits_lift,rows_to_edges,readRows_ok]
  constructor
  · rintro ⟨_,_,⟨rfl,rfl⟩,⟨rfl,readable⟩,rfl⟩
    exact ⟨rfl,readable,rfl⟩
  · rintro ⟨rfl,readable,rfl⟩
    exact ⟨_,_,⟨rfl,rfl⟩,⟨rfl,readable⟩,rfl⟩

/-- A new edge without an expiry joins the active edges. -/
theorem activeEdges_insert (t : Tables) (edge : NewEdge) (weight : SqlReal) (open_ : edge.t_expired = none) :
    ({ t with edges := t.edges.insert (newRow edge weight) (newRow_key edge weight) } : Tables).activeEdges =
      ⟨t.edges.nextId,edge.source_fact_id,edge.target_fact_id,RelationType.from edge.relation_type.as_str,.num weight⟩
        ::ₘ t.activeEdges := by
  have active : (newRow edge weight t.edges.nextId).active = true := by simp [newRow,Edge.active,open_]
  have rows : ((t.edges.insert (newRow edge weight) (newRow_key edge weight)).rows.filter Edge.active).map Edge.snapshot =
      (t.edges.rows.filter Edge.active).map Edge.snapshot ++ [(newRow edge weight t.edges.nextId).snapshot] := by
    rw [Table.insert_rows,List.filter_append,List.map_append,List.filter_singleton,active]
    rfl
  rw [Tables.activeEdges,rows]
  exact Multiset.coe_eq_coe.mpr (List.perm_append_singleton _ _)

/-- Expiring rows takes their edges out of the active set. -/
theorem activeEdges_expireRows (t : Tables) (sel : Edge → Bool) (keep : GraphEdgeSnapshot → Bool) (now : DateTime)
    (agree : ∀ e, keep e.snapshot = !sel e) :
    (expireRows t sel now).activeEdges = t.activeEdges.filter (fun s => keep s = true) := by
  have one : ∀ e : Edge, (if (sel e && e.active) = true then { e with t_expired := some now } else e).active =
      (e.active && !sel e) := by
    intro e
    by_cases selected : (sel e && e.active) = true
    · simp only [if_pos selected]
      simp only [Bool.and_eq_true] at selected
      simp [Edge.active,selected.1]
    · simp only [if_neg selected]
      cases live : e.active <;> simp_all
  have kept : t.edges.rows.filter (Edge.active ∘ fun e => if (sel e && e.active) = true then { e with t_expired := some now } else e) =
      t.edges.rows.filter (fun e => keep e.snapshot && e.active) := by
    refine List.filter_congr fun e _ => ?_
    simp only [Function.comp_apply,one,agree,Bool.and_comm]
  have rows : ((expireRows t sel now).edges.rows.filter Edge.active).map Edge.snapshot =
      ((t.edges.rows.filter Edge.active).map Edge.snapshot).filter keep := by
    simp only [expireRows,Table.update_rows,List.filter_map,List.map_map,List.filter_filter]
    rw [kept]
    refine List.map_congr_left fun e member => ?_
    have live := (List.mem_filter.mp member).2
    simp only [agree,Bool.and_eq_true,Bool.not_eq_true'] at live
    simp [live.1]
  rw [Tables.activeEdges,rows,Tables.activeEdges,Multiset.filter_coe]
  simp

/-- Deleting rows takes their edges out of the active set. -/
theorem activeEdges_delete (t : Tables) (sel : Edge → Bool) (keep : GraphEdgeSnapshot → Bool)
    (agree : ∀ e, keep e.snapshot = !sel e) :
    ({ t with edges := t.edges.delete sel } : Tables).activeEdges = t.activeEdges.filter (fun s => keep s = true) := by
  have rows : ((t.edges.delete sel).rows.filter Edge.active).map Edge.snapshot =
      ((t.edges.rows.filter Edge.active).map Edge.snapshot).filter keep := by
    rw [Table.delete_rows,List.filter_map,List.filter_filter,List.filter_filter]
    congr 1
    refine List.filter_congr fun e _ => ?_
    rw [Function.comp_apply,agree,Bool.and_comm]
  rw [Tables.activeEdges,rows,Tables.activeEdges,Multiset.filter_coe]
  simp

end EdgeStore
end MemoryEngine
