import MemoryEngine.ArchiveCommit

/-! What an archival keeps. The file holds the selected facts and the edges between
them; the transaction deletes the facts with every edge at one of them and every
lineage row of one of them. -/

namespace MemoryEngine
open Time KeyedTable Transaction

theorem KeyedTable.Table.delete_none {ρ : Type} [Row ρ] (table : Table ρ) : table.delete (fun _ => false) = table := by
  obtain ⟨rows,seq,ascending,allocated⟩ := table
  simp [Table.delete]

theorem Tables.deleteFacts_none (t : Tables) : t.deleteFacts (fun _ => false) = t := by
  have none : ∀ id, (t.facts.rows.any fun f => false && f.id == id) = false := by
    intro id
    rw [List.any_eq_false]
    simp
  simp only [Tables.deleteFacts,none,Table.delete_none,Bool.not_false,List.filter_true]

theorem FactStore.commits_hard_delete_ids {ids : List FactId} {s t : Db} {n : Nat} (committed : Commits (hard_delete_ids ids) s n t) :
    t.toTables = s.toTables.deleteFacts (fun f => ids.contains f.id) := by
  unfold hard_delete_ids at committed
  split at committed
  · rename_i empty
    rw [(commits_pure.mp committed).2,empty]
    exact (Tables.deleteFacts_none _).symm
  · obtain ⟨_,_,checked,counting⟩ := commits_bind.mp committed
    obtain ⟨_,rfl⟩ := commits_require.mp checked
    obtain ⟨_,_,counted,deleting⟩ := commits_bind.mp counting
    obtain ⟨rfl,rfl⟩ := commits_query.mp counted
    obtain ⟨_,_,deleted,last⟩ := commits_bind.mp deleting
    obtain ⟨_,rfl⟩ := commits_pure.mp last
    exact commits_execute.mp deleted

namespace Archive

/-- The contents after the transaction. -/
def archived (entry : NewArchiveManifest) (fact_ids : List FactId) (t : Tables) : Tables :=
  ({ t with
    archive_manifest := t.archive_manifest.insert (ArchiveManifestStore.newRow entry) (ArchiveManifestStore.newRow_key entry)
    edges := t.edges.delete (incidentToAny fact_ids) } : Tables).deleteFacts (fun f => fact_ids.contains f.id)

theorem commits_commit_archive {entry : NewArchiveManifest} {fact_ids : List FactId} {s t : Db} {u : Unit}
    (committed : Commits (commit_archive_atomic entry fact_ids) s u t) : t.toTables = archived entry fact_ids s.toTables := by
  obtain ⟨_,m,recorded,clearing⟩ := commits_bind.mp committed
  obtain ⟨_,m',cleared,deleting⟩ := commits_bind.mp clearing
  obtain ⟨_,m'',deleted,last⟩ := commits_bind.mp deleting
  obtain ⟨_,rfl⟩ := commits_pure.mp last
  rw [FactStore.commits_hard_delete_ids deleted,EdgeStore.commits_hard_delete cleared,(ArchiveManifestStore.fresh_of_commits recorded).2]
  rfl

/-- The file of an archival. -/
def build_pak (self : SqliteBackend) (selected : List Fact × List Edge) : ArchivePak := ⟨self.embed_dim,selected.1,selected.2⟩

/-- The file that an archival of the store writes. -/
def written (self : SqliteBackend) (cutoff : DateTime) (t : Tables) : ArchivePak := build_pak self (selection cutoff t)

/-- Every row of the facts, edges and lineage is still in the store or in the file. The
    file has no lineage. -/
structure NothingLost (s t : Tables) (pak : ArchivePak) : Prop where
  facts : ∀ f ∈ s.facts.rows, f ∈ t.facts.rows ∨ f ∈ pak.facts
  edges : ∀ e ∈ s.edges.rows, e ∈ t.edges.rows ∨ e ∈ pak.edges
  lineage : ∀ l ∈ s.lineage.rows, l ∈ t.lineage.rows

/-- No fact disappears, an edge disappears where exactly one end is archived, and a
    lineage row where its fact is. -/
structure Accounts (s t : Tables) (pak : ArchivePak) : Prop where
  facts : ∀ f ∈ s.facts.rows, f ∈ t.facts.rows ∨ f ∈ pak.facts
  edges : ∀ e ∈ s.edges.rows, (e ∈ t.edges.rows ∨ e ∈ pak.edges) ↔
    (e.source_fact_id ∈ pak.facts.map Fact.id ↔ e.target_fact_id ∈ pak.facts.map Fact.id)
  lineage : ∀ l ∈ s.lineage.rows, l ∈ t.lineage.rows ↔ l.wisdom_fact_id ∉ pak.facts.map Fact.id

/-- Where the transaction for the selected facts commits, it accounts for every row. -/
theorem accounts {self : SqliteBackend} {cutoff : DateTime} {entry : NewArchiveManifest} {s : Db} {t : Tables}
    (committed : t = archived entry ((selection cutoff s.toTables).1.map Fact.id) s.toTables) :
    Accounts s.toTables t (written self cutoff s.toTables) := by
  subst committed
  have listed : ∀ f ∈ s.facts.rows, f.id ∈ (selection cutoff s.toTables).1.map Fact.id ↔ f ∈ (selection cutoff s.toTables).1 := by
    intro f member
    constructor
    · intro named
      obtain ⟨g,selected,same⟩ := List.mem_map.mp named
      rwa [← s.facts.key_unique (List.mem_filter.mp selected).1 member same]
    · exact fun selected => List.mem_map_of_mem selected
  refine ⟨?_,?_,?_⟩
  · intro f member
    by_cases selected : f.id ∈ (selection cutoff s.toTables).1.map Fact.id
    · exact .inr ((listed f member).mp selected)
    · exact .inl (Table.mem_delete.mpr ⟨member,by simpa using selected⟩)
  · intro e member
    have kept : e ∈ (archived entry ((selection cutoff s.toTables).1.map Fact.id) s.toTables).edges.rows ↔
        incidentToAny ((selection cutoff s.toTables).1.map Fact.id) e = false := by
      constructor
      · exact fun held => (Table.mem_delete.mp held).2
      · exact fun apart => Table.mem_delete.mpr ⟨member,apart⟩
    have moved : e ∈ (written self cutoff s.toTables).edges ↔ internal ((selection cutoff s.toTables).1.map Fact.id) e = true := by
      constructor
      · exact fun held => (List.mem_filter.mp held).2
      · exact fun inside => List.mem_filter.mpr ⟨member,inside⟩
    rw [kept,moved]
    change _ ↔ (e.source_fact_id ∈ (selection cutoff s.toTables).1.map Fact.id ↔ e.target_fact_id ∈ (selection cutoff s.toTables).1.map Fact.id)
    simp only [incidentToAny,internal,List.contains_eq_mem,Bool.or_eq_false_iff,Bool.and_eq_true,decide_eq_false_iff_not,decide_eq_true_eq]
    tauto
  · intro l member
    change l ∈ (s.lineage.delete _).rows ↔ _
    rw [Table.mem_delete,List.any_eq_false]
    obtain ⟨f,held,same⟩ := s.foreign.wisdom_fact l member
    have named : f.id = l.wisdom_fact_id := same
    constructor
    · rintro ⟨_,apart⟩ selected
      exact apart f held (by simpa [named,written,build_pak] using selected)
    · intro unselected
      refine ⟨member,fun g _ gone => unselected ?_⟩
      simp only [Bool.and_eq_true,List.contains_eq_mem,decide_eq_true_eq,beq_iff_eq] at gone
      exact gone.2 ▸ gone.1

/-- What the call does: nothing, or it writes the file and commits. -/
theorem commits_archive {ctx : MemoryCtx} {write_pak : ArchivePak → Except MemoryError (String × Int × String)} {policy : ArchivePolicy}
    {now : DateTime} {e e' : Engine} {result : Option ArchiveStats} (archived : Commits (archive ctx write_pak policy now) e result e') :
    (result = none ∧ e' = e) ∨ ∃ stats entry, result = some stats ∧
      write_pak (written ctx.backend policy.expired_before e.storage.toTables) = .ok (stats.pak_path,stats.pak_size_bytes,stats.blake3_hash) ∧
        entry.pak_path = stats.pak_path ∧ Commits (commit_archive_atomic entry
          ((selection policy.expired_before e.storage.toTables).1.map Fact.id)) e.storage () e'.storage := by
  have body := commits_gated archived
  obtain ⟨selected,m,chosen,rest⟩ := commits_bind.mp body
  obtain ⟨db,listed,rfl⟩ := commits_port.mp chosen
  obtain ⟨rfl,rfl⟩ := commits_selection listed
  dsimp only at rest
  split at rest
  · obtain ⟨rfl,rfl⟩ := commits_pure.mp rest
    exact .inl ⟨rfl,rfl⟩
  · obtain ⟨⟨name,size,hash⟩,_,made,committing⟩ := commits_bind.mp rest
    obtain ⟨file,rfl⟩ := commits_lift.mp made
    obtain ⟨_,_,ported,mirroring⟩ := commits_bind.mp committing
    obtain ⟨db',deleted,rfl⟩ := commits_port.mp ported
    obtain ⟨_,_,mirrored,last⟩ := commits_bind.mp mirroring
    obtain ⟨rfl,rfl⟩ := commits_pure.mp last
    rw [commits_mirror.mp mirrored]
    exact .inr ⟨_,_,rfl,file,rfl,deleted⟩

end Archive

open Archive

/-- A call that archives writes the selected facts and the edges between them, and
    accounts for every fact, edge and lineage row. -/
theorem archive_accounts {ctx : MemoryCtx} {write_pak : ArchivePak → Except MemoryError (String × Int × String)} {policy : ArchivePolicy}
    {now : DateTime} {e e' : Engine} {result : Option ArchiveStats} (archived : Commits (archive ctx write_pak policy now) e result e') :
    (result = none ∧ e'.storage = e.storage) ∨ ∃ stats, result = some stats ∧
      write_pak (written ctx.backend policy.expired_before e.storage.toTables) = .ok (stats.pak_path,stats.pak_size_bytes,stats.blake3_hash) ∧
        Accounts e.storage.toTables e'.storage.toTables (written ctx.backend policy.expired_before e.storage.toTables) := by
  rcases commits_archive archived with ⟨rfl,rfl⟩ | ⟨stats,entry,rfl,file,_,committed⟩
  · exact .inl ⟨rfl,rfl⟩
  · exact .inr ⟨stats,rfl,file,accounts (commits_commit_archive committed)⟩

namespace Sample

def writePak (_pak : ArchivePak) : Except MemoryError (String × Int × String) := .ok ("a.pak",0,"")

def eager : ArchivePolicy := ⟨nextYear,1⟩

/-- The first fact expires, its edge stays, and an archival follows. -/
def expiredFirst : Op Unit := port (FactStore.expire 1 moment)

def archival : Op (Option ArchiveStats) := archive ctx writePak eager moment

end Sample

theorem archive_accounts_sample : ∃ e e' result, Commits Sample.archival e result e' ∧
    ((result = none ∧ e'.storage = e.storage) ∨ ∃ stats, result = some stats ∧
      Sample.writePak (written Sample.ctx.backend Sample.eager.expired_before e.storage.toTables) =
          .ok (stats.pak_path,stats.pak_size_bytes,stats.blake3_hash) ∧
        Accounts e.storage.toTables e'.storage.toTables (written Sample.ctx.backend Sample.eager.expired_before e.storage.toTables)) := by
  have ran : Ends Sample.expiredFirst Sample.engine (fun _ e => Ends Sample.archival e fun result _ => result.isSome) = true := by
    decide +kernel
  obtain ⟨_,e,_,ran⟩ := commits_of_ends ran
  obtain ⟨result,e',archived,_⟩ := commits_of_ends ran
  exact ⟨e,e',result,archived,archive_accounts archived⟩

/-- An edge between an archived fact and one that stays is neither in the store nor in
    the file. -/
theorem boundary_edge_lost : ¬ ∀ (ctx : MemoryCtx) (write_pak : ArchivePak → Except MemoryError (String × Int × String))
    (policy : ArchivePolicy) (now : DateTime) (e e' : Engine) (stats : ArchiveStats),
    Commits (archive ctx write_pak policy now) e (some stats) e' →
      NothingLost e.storage.toTables e'.storage.toTables (written ctx.backend policy.expired_before e.storage.toTables) := by
  intro claim
  have ran : Ends Sample.expiredFirst Sample.engine (fun _ e => Ends Sample.archival e fun result e' => result.isSome &&
      e.storage.edges.rows.any fun x => !e'.storage.edges.rows.contains x &&
        !(written Sample.backend Sample.nextYear e.storage.toTables).edges.contains x) = true := by
    decide +kernel
  obtain ⟨_,e,_,ran⟩ := commits_of_ends ran
  obtain ⟨result,e',archived,ran⟩ := commits_of_ends ran
  obtain ⟨some,lost⟩ := Bool.and_eq_true_iff.mp ran
  obtain ⟨stats,rfl⟩ := Option.isSome_iff_exists.mp some
  obtain ⟨x,member,gone⟩ := List.any_eq_true.mp lost
  simp only [Bool.and_eq_true,Bool.not_eq_true',List.contains_eq_mem,decide_eq_false_iff_not] at gone
  rcases (claim _ _ _ _ _ _ _ archived).edges x member with kept | filed
  · exact gone.1 kept
  · exact gone.2 filed

end MemoryEngine
