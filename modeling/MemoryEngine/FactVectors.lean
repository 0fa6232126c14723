import MemoryEngine.EmbeddingSpaces

/-! The vectors of the spaces that are not served. A reconstruction backfills the
vectors of a populating space, and one transaction swaps them into the facts. -/

namespace MemoryEngine
open Time KeyedTable Transaction

theorem EmbeddingSpaces.commits_activate {name : String} {s t : Db} {u : Unit} (committed : Commits (activate name) s u t) :
    t.toTables = setStatus s.toTables name .Active := by
  obtain ⟨_,_,listed,checking⟩ := commits_bind.mp committed
  obtain ⟨rfl,rfl⟩ := commits_query.mp listed
  obtain ⟨_,_,single,activating⟩ := commits_bind.mp checking
  obtain ⟨_,rfl⟩ := commits_require.mp single
  exact commits_execute.mp activating

namespace FactVectors

/-- The vector a space holds for a fact. -/
def vectorIn (t : Tables) (space_id : String) (fact_id : FactId) : Option Embedding :=
  (t.fact_vectors.find? (fun v => v.fact_id == fact_id && v.space_id == space_id)).map FactVector.embedding

/-- The facts without a vector in the space, expired or not. -/
def unbackfilled (t : Tables) (space_id : String) : List Fact :=
  t.facts.rows.filter fun f => (vectorIn t space_id f.id).isNone

def next_backfill_window (space_id : String) (after_id : FactId) (limit : Nat) : Sql (List (FactId × String)) :=
  query fun t => (((unbackfilled t space_id).filter (fun f => after_id < f.id)).take limit).map fun f => (f.id,f.content)

def count_unbackfilled (space_id : String) : Sql Nat := query fun t => (unbackfilled t space_id).length

/-- `ON CONFLICT DO NOTHING`: a vector that is there stays, and the row counts for nothing. -/
def insertVector (space_id : String) (acc : Tables × Nat) (row : FactId × Embedding) : Tables × Nat :=
  match vectorIn acc.1 space_id row.1 with
  | some _ => acc
  | none => ({ acc.1 with fact_vectors := acc.1.fact_vectors ++ [⟨row.1,space_id,row.2⟩] },acc.2 + 1)

/-- The number of rows that were new. -/
def write_backfill_batch (space_id : String) (rows : List (FactId × Embedding)) : Sql Nat := do
  let inserted ← query fun t => (rows.foldl (insertVector space_id) (t,0)).2
  execute fun t => (rows.foldl (insertVector space_id) (t,0)).1
  return inserted

/-- Keep the served vectors under the name of their space. -/
def retain (active : String) (t : Tables) : Tables :=
  { t with fact_vectors := t.fact_vectors ++ t.facts.rows.map (fun f => ⟨f.id,active,f.embedding⟩) }

/-- The fact with its vector from a space. -/
def swapped (t : Tables) (space_id : String) (f : Fact) : Fact :=
  { f with embedding := (vectorIn t space_id f.id).getD f.embedding }

/-- Every fact with its vector from a space. -/
def swappedFacts (t : Tables) (space_id : String) : Table Fact := t.facts.update (fun _ => true) (swapped t space_id) (fun _ => rfl)

/-- Rewrite every fact; a missing vector would be NULL. -/
def copySwap (space_id : String) : Sql Nat := do
  let missing ← query fun t => unbackfilled t space_id
  require (missing = []) (.Storage "NOT NULL constraint failed: facts.embedding")
  let promoted ← query (·.facts.rows.length)
  execute fun t => { t with facts := swappedFacts t space_id }
  return promoted

def dropSpace (space_id : String) : Sql Unit :=
  execute fun t => { t with fact_vectors := t.fact_vectors.filter (fun v => v.space_id != space_id) }

end FactVectors

structure PromoteOutcome where
  promoted : Nat
  deprecated_space : String
  new_fingerprint : EmbeddingFingerprint
  stragglers_caught : Nat
  rebuild_index : Bool

namespace FactVectors

/-- The space that a promotion swaps in. -/
def populatingSpace (populating : String) : Sql EmbeddingSpace := do
  match ← EmbeddingSpaces.find_by_name populating with
  | none => throw (.Internal s!"promote: populating space {populating} not found")
  | some new => do
    require (new.status = .Populating) (.Internal s!"promote: space {populating} is not populating")
    return new

def servedSpace : Sql EmbeddingSpace := do
  match ← EmbeddingSpaces.find_active with
  | none => throw (.Internal "promote: no active embedding space to swap over")
  | some active => return active

/-- One transaction: both spaces are resolved, every fact has its new vector, the old
    vectors are retained, the new ones swapped in, the statuses flipped and the
    backfill dropped. -/
def promote_space (populating : String) : Sql PromoteOutcome := do
  let active ← servedSpace
  let new ← populatingSpace populating
  let missing ← count_unbackfilled populating
  require (missing = 0) (.Internal s!"promote: {missing} fact(s) un-backfilled in {populating} — backfill before promote")
  execute (retain active.name)
  let promoted ← copySwap populating
  EmbeddingSpaces.deprecate_space active.name
  EmbeddingSpaces.activate populating
  dropSpace populating
  return ⟨promoted,active.name,new.fingerprint,0,true⟩

theorem commits_copySwap {space_id : String} {s t : Db} {n : Nat} : Commits (copySwap space_id) s n t ↔
    (unbackfilled s.toTables space_id = [] ∧
      t.toTables = { s.toTables with facts := swappedFacts s.toTables space_id }) ∧
        n = s.facts.rows.length := by
  simp only [copySwap,commits_bind,commits_query,commits_require,commits_execute,commits_pure]
  constructor
  · rintro ⟨_,_,⟨rfl,rfl⟩,_,_,⟨filled,rfl⟩,_,_,⟨rfl,rfl⟩,_,_,written,rfl,rfl⟩
    exact ⟨⟨filled,written⟩,rfl⟩
  · rintro ⟨⟨filled,written⟩,rfl⟩
    exact ⟨_,_,⟨rfl,rfl⟩,(),_,⟨filled,rfl⟩,_,_,⟨rfl,rfl⟩,(),_,written,rfl,rfl⟩

/-- The contents after a promotion. -/
def promoted (t : Tables) (active populating : String) : Tables :=
  { t with
    facts := swappedFacts t populating
    fact_vectors := (retain active t).fact_vectors.filter (fun v => v.space_id != populating)
    embedding_spaces := (EmbeddingSpaces.setStatus (EmbeddingSpaces.setStatus t active .Deprecated) populating .Active).embedding_spaces }

theorem vectorIn_retain {active space_id : String} (apart : active ≠ space_id) (t : Tables) (id : FactId) :
    vectorIn (retain active t) space_id id = vectorIn t space_id id := by
  have none : (t.facts.rows.map (fun f => (⟨f.id,active,f.embedding⟩ : FactVector))).find?
      (fun v => v.fact_id == id && v.space_id == space_id) = none := by
    rw [List.find?_eq_none]
    intro v listed
    obtain ⟨f,_,rfl⟩ := List.mem_map.mp listed
    simp [apart]
  rw [vectorIn,vectorIn,retain,List.find?_append,none,Option.or_none]

theorem swappedFacts_retain {active space_id : String} (apart : active ≠ space_id) (t : Tables) :
    swappedFacts (retain active t) space_id = swappedFacts t space_id := by
  have same : swapped (retain active t) space_id = swapped t space_id := by
    funext f
    rw [swapped,swapped,vectorIn_retain apart]
  simp only [swappedFacts,same]
  rfl

theorem commits_servedSpace {s t : Db} {active : EmbeddingSpace} :
    Commits servedSpace s active t ↔ s.activeSpace = some active ∧ t = s := by
  simp only [servedSpace,commits_bind,EmbeddingSpaces.commits_find_active]
  constructor
  · rintro ⟨_,_,⟨rfl,rfl⟩,rest⟩
    split at rest
    · exact absurd rest commits_throw
    · rename_i found
      obtain ⟨rfl,rfl⟩ := commits_pure.mp rest
      exact ⟨found,rfl⟩
  · rintro ⟨found,rfl⟩
    refine ⟨_,_,⟨rfl,rfl⟩,?_⟩
    rw [found]
    exact commits_pure.mpr ⟨rfl,rfl⟩

theorem commits_populatingSpace {populating : String} {s t : Db} {new : EmbeddingSpace} :
    Commits (populatingSpace populating) s new t ↔ s.findSpace populating = some new ∧ new.status = .Populating ∧ t = s := by
  simp only [populatingSpace,commits_bind,EmbeddingSpaces.commits_find_by_name]
  constructor
  · rintro ⟨_,_,⟨rfl,rfl⟩,rest⟩
    split at rest
    · exact absurd rest commits_throw
    · rename_i found
      obtain ⟨_,_,checked,last⟩ := commits_bind.mp rest
      obtain ⟨status,rfl⟩ := commits_require.mp checked
      obtain ⟨rfl,rfl⟩ := commits_pure.mp last
      exact ⟨found,status,rfl⟩
  · rintro ⟨found,status,rfl⟩
    refine ⟨_,_,⟨rfl,rfl⟩,?_⟩
    rw [found]
    exact commits_bind.mpr ⟨(),_,commits_require.mpr ⟨status,rfl⟩,commits_pure.mpr ⟨rfl,rfl⟩⟩

/-- A promotion swaps every vector and changes nothing but the vectors and the statuses. -/
theorem commits_promote_space {populating : String} {s t : Db} {outcome : PromoteOutcome}
    (committed : Commits (promote_space populating) s outcome t) : ∃ active new,
      s.activeSpace = some active ∧ s.findSpace populating = some new ∧ new.status = .Populating ∧
        unbackfilled s.toTables populating = [] ∧ t.toTables = promoted s.toTables active.name populating ∧
          outcome = ⟨s.facts.rows.length,active.name,new.fingerprint,0,true⟩ := by
  obtain ⟨active,_,served,resolving⟩ := commits_bind.mp committed
  obtain ⟨found,rfl⟩ := commits_servedSpace.mp served
  obtain ⟨new,_,resolved,counting⟩ := commits_bind.mp resolving
  obtain ⟨named,status,rfl⟩ := commits_populatingSpace.mp resolved
  obtain ⟨_,_,counted,gating⟩ := commits_bind.mp counting
  obtain ⟨rfl,rfl⟩ := commits_query.mp counted
  obtain ⟨_,_,gate,retaining⟩ := commits_bind.mp gating
  obtain ⟨complete,rfl⟩ := commits_require.mp gate
  obtain ⟨_,m₁,retained,copying⟩ := commits_bind.mp retaining
  obtain ⟨n,m₂,copied,demoting⟩ := commits_bind.mp copying
  obtain ⟨_,m₃,demoted,promoting⟩ := commits_bind.mp demoting
  obtain ⟨_,m₄,activated,dropping⟩ := commits_bind.mp promoting
  obtain ⟨_,m₅,dropped,last⟩ := commits_bind.mp dropping
  obtain ⟨rfl,rfl⟩ := commits_pure.mp last
  have kept := commits_execute.mp retained
  have demotion := commits_execute.mp demoted
  have cleared := commits_execute.mp dropped
  obtain ⟨swapping,rfl⟩ := commits_copySwap.mp copied
  have activation := EmbeddingSpaces.commits_activate activated
  have apart : active.name ≠ populating := by
    intro same
    obtain ⟨held,serving⟩ := (activeSpace_eq_some _).mp found
    obtain ⟨here,called⟩ := (findSpace_eq_some _).mp named
    rw [space_name_unique _ held here (same.trans called.symm),status] at serving
    cases serving
  refine ⟨active,new,found,named,status,List.length_eq_zero_iff.mp complete,?_,?_⟩
  · rw [cleared,activation,demotion,swapping.2,kept,swappedFacts_retain apart]
    rfl
  · rw [kept]
    rfl

/-- The promoted space serves, under its own identity. -/
theorem activeSpace_promoted {populating : String} {s t : Db} {active : String} {new : EmbeddingSpace} (named : s.findSpace populating = some new)
    (contents : t.toTables = promoted s.toTables active populating) : t.activeSpace = some { new with status := .Active } := by
  obtain ⟨held,called⟩ := (findSpace_eq_some _).mp named
  rw [activeSpace_eq_some,contents]
  refine ⟨?_,rfl⟩
  change _ ∈ (s.embedding_spaces.map _).map _
  rw [List.map_map]
  refine List.mem_map.mpr ⟨new,held,?_⟩
  by_cases demoted : new.name = active
  · simp only [Function.comp_apply,if_pos demoted,if_pos called]
  · simp only [Function.comp_apply,if_neg demoted,if_pos called]

theorem mem_swappedFacts {t : Tables} {space_id : String} {f : Fact} :
    f ∈ (swappedFacts t space_id).rows ↔ ∃ old ∈ t.facts.rows, f = swapped t space_id old := by
  rw [swappedFacts]
  exact Table.mem_update

/-- The spaces after a promotion are the spaces before it, but for their status. -/
theorem mem_promoted_spaces {t : Tables} {active populating : String} {sp : EmbeddingSpace}
    (member : sp ∈ (promoted t active populating).embedding_spaces) :
    ∃ old ∈ t.embedding_spaces, old.name = sp.name ∧ old.fingerprint = sp.fingerprint := by
  obtain ⟨mid,inside,rfl⟩ := List.mem_map.mp member
  obtain ⟨old,held,rfl⟩ := List.mem_map.mp inside
  refine ⟨old,held,?_⟩
  split <;> split <;> exact ⟨rfl,rfl⟩

theorem vectorIn_eq_none {t : Tables} {space_id : String} {id : FactId} :
    vectorIn t space_id id = none ↔ ∀ v ∈ t.fact_vectors, v.fact_id = id → v.space_id ≠ space_id := by
  simp [vectorIn]

theorem vectorIn_eq_some {s : Db} {space_id : String} {id : FactId} {embedding : Embedding} :
    vectorIn s.toTables space_id id = some embedding ↔ ⟨id,space_id,embedding⟩ ∈ s.fact_vectors := by
  constructor
  · intro found
    obtain ⟨v,here,rfl⟩ := Option.map_eq_some_iff.mp found
    have named := List.find?_some here
    simp only [Bool.and_eq_true,beq_iff_eq] at named
    rw [← named.1,← named.2]
    exact List.mem_of_find?_eq_some here
  · intro member
    cases found : s.fact_vectors.find? fun v => v.fact_id == id && v.space_id == space_id with
    | none => exact absurd (List.find?_eq_none.mp found _ member) (by simp)
    | some v =>
      have named := List.find?_some found
      simp only [Bool.and_eq_true,beq_iff_eq] at named
      have same := List.inj_on_of_nodup_map s.unique.vectors (List.mem_of_find?_eq_some found) member (Prod.ext named.1 named.2)
      rw [vectorIn,found,same]
      rfl

theorem foldl_insertVector (space_id : String) (rows : List (FactId × Embedding)) (acc : Tables × Nat) :
    ∃ vectors, (rows.foldl (insertVector space_id) acc).1 = { acc.1 with fact_vectors := vectors } := by
  induction rows generalizing acc with
  | nil => exact ⟨acc.1.fact_vectors,rfl⟩
  | cons row rest ih =>
    rw [List.foldl_cons]
    obtain ⟨vectors,later⟩ := ih (insertVector space_id acc row)
    rw [later]
    refine ⟨vectors,?_⟩
    unfold insertVector
    split <;> rfl

/-- A row of a batch is new in its space. -/
theorem mem_insertVectors {space_id : String} {rows : List (FactId × Embedding)} {acc : Tables × Nat} {v : FactVector}
    (member : v ∈ (rows.foldl (insertVector space_id) acc).1.fact_vectors) : v ∈ acc.1.fact_vectors ∨
      (v.space_id = space_id ∧ vectorIn acc.1 space_id v.fact_id = none ∧ (v.fact_id,v.embedding) ∈ rows) := by
  induction rows generalizing acc with
  | nil => exact .inl member
  | cons row rest ih =>
    rw [List.foldl_cons] at member
    rcases ih member with before | ⟨named,absent,listed⟩
    · unfold insertVector at before
      cases there : vectorIn acc.1 space_id row.1 with
      | some _ =>
        rw [there] at before
        exact .inl before
      | none =>
        rw [there] at before
        rcases List.mem_append.mp before with old | new
        · exact .inl old
        · rw [List.mem_singleton.mp new]
          exact .inr ⟨rfl,there,List.mem_cons_self⟩
    · refine .inr ⟨named,?_,List.mem_cons_of_mem _ listed⟩
      unfold insertVector at absent
      cases there : vectorIn acc.1 space_id row.1 with
      | some _ =>
        rw [there] at absent
        exact absent
      | none =>
        rw [there] at absent
        exact vectorIn_eq_none.mpr fun w held => vectorIn_eq_none.mp absent w (List.mem_append_left _ held)

/-- A batch adds vectors to its space and changes nothing else. -/
theorem commits_write_backfill_batch {space_id : String} {rows : List (FactId × Embedding)} {s t : Db} {n : Nat}
    (committed : Commits (write_backfill_batch space_id rows) s n t) :
    t.toTables = { s.toTables with fact_vectors := t.fact_vectors } ∧ ∀ v ∈ t.fact_vectors, v ∈ s.fact_vectors ∨
      (v.space_id = space_id ∧ vectorIn s.toTables space_id v.fact_id = none ∧ (v.fact_id,v.embedding) ∈ rows) := by
  obtain ⟨_,_,counted,writing⟩ := commits_bind.mp committed
  obtain ⟨rfl,rfl⟩ := commits_query.mp counted
  obtain ⟨_,_,written,last⟩ := commits_bind.mp writing
  obtain ⟨rfl,rfl⟩ := commits_pure.mp last
  have contents := commits_execute.mp written
  constructor
  · obtain ⟨vectors,same⟩ := foldl_insertVector space_id rows (_,0)
    rw [same] at contents
    rw [contents]
  · intro v member
    rw [contents] at member
    exact mem_insertVectors member

end FactVectors

/-- A space is reopened under its own identity, or opened under a new name. -/
theorem EmbeddingSpaces.commits_begin_populating {space : EmbeddingSpace} {s t : Db} {u : Unit}
    (committed : Commits (begin_populating space) s u t) :
    (∃ existing, s.findSpace space.name = some existing ∧ existing.status = .Populating ∧ existing.fingerprint = space.fingerprint ∧ t = s) ∨
      (s.findSpace space.name = none ∧
        t.toTables = { s.toTables with embedding_spaces := s.embedding_spaces ++ [{ space with status := .Populating }] }) := by
  obtain ⟨found,_,looked,rest⟩ := commits_bind.mp committed
  obtain ⟨rfl,rfl⟩ := commits_find_by_name.mp looked
  split at rest
  · rename_i absent
    obtain ⟨_,_,sized,listing⟩ := commits_bind.mp rest
    obtain ⟨_,rfl⟩ := commits_require.mp sized
    obtain ⟨_,_,listed,naming⟩ := commits_bind.mp listing
    obtain ⟨rfl,rfl⟩ := commits_query.mp listed
    obtain ⟨_,_,unused,checking⟩ := commits_bind.mp naming
    obtain ⟨_,rfl⟩ := commits_require.mp unused
    obtain ⟨_,_,single,inserting⟩ := commits_bind.mp checking
    obtain ⟨_,rfl⟩ := commits_require.mp single
    exact .inr ⟨absent,commits_execute.mp inserting⟩
  · rename_i existing present
    obtain ⟨⟨status,same⟩,rfl⟩ := commits_require.mp rest
    exact .inl ⟨existing,present,status,same,rfl⟩

end MemoryEngine
