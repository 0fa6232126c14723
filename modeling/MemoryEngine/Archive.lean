import MemoryEngine.GraphEdit

/-! Archival. Expired facts that are not pinned move to a file; one transaction
then records the file and deletes the facts with every edge that touches them,
and the graph loses their nodes. -/

namespace MemoryEngine
open Time KeyedTable Transaction GraphEdit

structure ArchivePolicy where
  expired_before : DateTime
  min_facts : Nat

structure ArchivePak where
  embed_dim : Nat
  facts : List Fact
  edges : List Edge

structure ArchiveStats where
  facts_archived : Nat
  edges_archived : Nat
  pak_path : String
  pak_size_bytes : Int
  blake3_hash : String

/-- The most parameters one statement can bind. -/
def SQLITE_MAX_VARIABLE_NUMBER : Nat := 32766

/-- Not pinned, and expired before the cutoff by the order of the stored texts. -/
def Fact.archivable (cutoff : DateTime) (f : Fact) : Bool := !f.is_pinned && f.t_expired.any (fun t => t.textLt cutoff)

namespace FactStore
variable (self : SqliteBackend)

def list_archive_candidates (expired_before : DateTime) : Sql (List Fact) := do
  let rows ← query fun t => t.facts.rows.filter (Fact.archivable expired_before)
  rows_to_facts self.embed_dim rows

/-- One statement with a parameter for every id. -/
def hard_delete_ids (ids : List FactId) : Sql Nat :=
  if ids = [] then return 0 else do
    require (ids.length ≤ SQLITE_MAX_VARIABLE_NUMBER) (.Storage "too many SQL variables")
    let count ← query fun t => t.facts.rows.countP (fun f => ids.contains f.id)
    execute fun t => t.deleteFacts (fun f => ids.contains f.id)
    return count

end FactStore

namespace Archive
variable (self : SqliteBackend)

def select_archive_candidates (expired_before : DateTime) : Sql (List Fact × List Edge) := do
  let candidate_facts ← FactStore.list_archive_candidates self expired_before
  let candidate_edges ← EdgeStore.list_internal_by_facts (candidate_facts.map Fact.id)
  return (candidate_facts,candidate_edges)

/-- The least and the greatest of a list, or a default for the empty one. -/
def least {α : Type} [LinearOrder α] (default : α) (items : List α) : α := items.min?.getD default
def greatest {α : Type} [LinearOrder α] (default : α) (items : List α) : α := items.max?.getD default

def manifest (pak_filename : String) (facts : List Fact) (edges : List Edge) (pak_size_bytes : Int) (blake3_hash : String)
    (now : DateTime) : NewArchiveManifest where
  pak_path := pak_filename
  created_at := now
  fact_count := facts.length
  edge_count := edges.length
  fact_id_min := least 0 (facts.map Fact.id)
  fact_id_max := greatest 0 (facts.map Fact.id)
  t_created_min := least now (facts.map Fact.t_created)
  t_created_max := greatest now (facts.map Fact.t_created)
  size_bytes := pak_size_bytes
  blake3_hash := blake3_hash

/-- Record the file, then delete edges before facts. -/
def commit_archive_atomic (entry : NewArchiveManifest) (fact_ids : List FactId) : Sql Unit := do
  let _ ← ArchiveManifestStore.insert entry
  let _ ← EdgeStore.hard_delete_incident_to_facts fact_ids
  let _ ← FactStore.hard_delete_ids fact_ids

/-- Drop the node of each archived fact with its edges. -/
def pruneNodes (fact_ids : List FactId) (g : MemoryGraph) : MemoryGraph :=
  fact_ids.foldl (fun graph fid => (graph.remove_edges_by_fact fid).remove_node fid) g

end Archive

/-- `write_pak` writes the file and returns its name, size and digest. -/
def archive (ctx : MemoryCtx) (write_pak : ArchivePak → Except MemoryError (String × Int × String)) (policy : ArchivePolicy)
    (now : DateTime) : Op (Option ArchiveStats) := do
  ctx.ensure_open
  ctx.ensure_writable
  let (facts,edges) ← port (Archive.select_archive_candidates ctx.backend policy.expired_before)
  if facts.length < policy.min_facts then return none else do
    let (pak_filename,pak_size_bytes,blake3_hash) ← write_pak ⟨ctx.backend.embed_dim,facts,edges⟩
    port (Archive.commit_archive_atomic (Archive.manifest pak_filename facts edges pak_size_bytes blake3_hash now)
      (facts.map Fact.id))
    mirror (Archive.pruneNodes (facts.map Fact.id))
    return some ⟨facts.length,edges.length,pak_filename,pak_size_bytes,blake3_hash⟩

/-- The edges that the archival of some facts deletes. -/
def incidentToAny (fact_ids : List FactId) (e : Edge) : Bool :=
  fact_ids.contains e.source_fact_id || fact_ids.contains e.target_fact_id

theorem EdgeStore.commits_hard_delete {fact_ids : List FactId} {s t : Db} {n : Nat}
    (committed : Commits (EdgeStore.hard_delete_incident_to_facts fact_ids) s n t) :
    t.toTables = { s.toTables with edges := s.edges.delete (incidentToAny fact_ids) } := by
  obtain ⟨_,_,counted,rest⟩ := commits_bind.mp committed
  obtain ⟨rfl,rfl⟩ := commits_query.mp counted
  obtain ⟨_,_,written,last⟩ := commits_bind.mp rest
  obtain ⟨rfl,rfl⟩ := commits_pure.mp last
  exact commits_execute.mp written

theorem EdgeStore.edits_hard_delete {fact_ids : List FactId} {s t : Db} {n : Nat}
    (committed : Commits (EdgeStore.hard_delete_incident_to_facts fact_ids) s n t) : Edits (dropping fact_ids) s t := by
  have written := EdgeStore.commits_hard_delete committed
  refine ⟨?_,fun x member => absurd member (Multiset.notMem_zero x),by rw [written]; exact le_refl _⟩
  rw [written,EdgeStore.activeEdges_delete _ (incidentToAny fact_ids) (fun e => !(fact_ids.contains e.source || fact_ids.contains e.target))
      (fun _ => rfl),dropping_apply]
  refine Multiset.filter_congr fun e _ => ?_
  simp only [Bool.not_eq_true',Bool.or_eq_false_iff,List.contains_eq_mem,decide_eq_false_iff_not,GraphEdgeSnapshot.touches,
    beq_eq_false_iff_ne]
  constructor
  · rintro ⟨source,target⟩ id listed
    exact ⟨fun same => source (same ▸ listed),fun same => target (same ▸ listed)⟩
  · intro apart
    exact ⟨fun listed => (apart _ listed).1 rfl,fun listed => (apart _ listed).2 rfl⟩

theorem FactStore.keepsEdges_hard_delete_ids (ids : List FactId) : KeepsEdges (FactStore.hard_delete_ids ids) := by
  unfold FactStore.hard_delete_ids
  split
  · exact keepsEdges_pure _
  · refine keepsEdges_bind keepsEdges_require fun _ => keepsEdges_bind keepsEdges_query fun _ => ?_
    exact keepsEdges_bind (keepsEdges_execute (fun _ => rfl) (fun _ => le_refl _)) fun _ => keepsEdges_pure _

namespace Archive

theorem keepsEdges_select_archive_candidates (self : SqliteBackend) (expired_before : DateTime) :
    KeepsEdges (select_archive_candidates self expired_before) := by
  refine keepsEdges_bind (keepsEdges_bind keepsEdges_query fun _ => keepsEdges_lift _) fun _ => ?_
  exact keepsEdges_bind (keepsEdges_bind keepsEdges_query fun _ => keepsEdges_lift _) fun _ => keepsEdges_pure _

theorem view_pruneNodes (fact_ids : List FactId) (g : MemoryGraph) :
    (pruneNodes fact_ids g).view = (dropping fact_ids).apply g.view := by
  unfold pruneNodes
  induction fact_ids generalizing g with
  | nil => rw [List.foldl_nil,dropping_nil]
  | cons fid rest ih =>
    have twice : ∀ s : Multiset GraphEdgeSnapshot, (dropping [fid]).apply ((dropping [fid]).apply s) = (dropping [fid]).apply s := by
      intro s
      rw [dropping_apply,dropping_apply,Multiset.filter_filter]
      simp
    rw [List.foldl_cons,ih,MemoryGraph.view_remove_node_as,MemoryGraph.view_remove_edges_by_fact_as,twice,← dropping_cons]

theorem edits {entry : NewArchiveManifest} {fact_ids : List FactId} {s t : Db} {u : Unit}
    (committed : Commits (commit_archive_atomic entry fact_ids) s u t) : Edits (dropping fact_ids) s t := by
  obtain ⟨_,m,recorded,rest⟩ := commits_bind.mp committed
  obtain ⟨_,m',cleared,rest⟩ := commits_bind.mp rest
  obtain ⟨_,m'',deleted,last⟩ := commits_bind.mp rest
  obtain ⟨_,rfl⟩ := commits_pure.mp last
  have first := keepsEdges_of_core (ArchiveManifestStore.keepsCore_insert entry) _ _ _ recorded
  have cut := Edits.after first (EdgeStore.edits_hard_delete cleared)
  exact cut.before (FactStore.keepsEdges_hard_delete_ids fact_ids _ _ _ deleted)

theorem replays (fact_ids : List FactId) : Replays (dropping fact_ids) (pruneNodes fact_ids) :=
  fun g _ => view_pruneNodes fact_ids g

end Archive
end MemoryEngine
