import MemoryEngine.FactStore

/-! The embedding-space registry and the single-active identity kept on it. -/

namespace MemoryEngine
open Time KeyedTable Transaction

def EmbeddingSpace.isActive (s : EmbeddingSpace) : Bool := s.status == .Active

/-- The single active space of the registry. -/
def Tables.activeSpace (t : Tables) : Option EmbeddingSpace := t.embedding_spaces.find? EmbeddingSpace.isActive

def Tables.findSpace (t : Tables) (name : String) : Option EmbeddingSpace := t.embedding_spaces.find? (fun s => s.name == name)

/-- Names tell spaces apart. -/
theorem space_name_unique (db : Db) {a b : EmbeddingSpace} (left : a ∈ db.embedding_spaces) (right : b ∈ db.embedding_spaces)
    (same : a.name = b.name) : a = b :=
  List.inj_on_of_nodup_map db.unique.spaces left right same

theorem activeSpace_eq_some (db : Db) {s : EmbeddingSpace} :
    db.activeSpace = some s ↔ s ∈ db.embedding_spaces ∧ s.status = .Active := by
  constructor
  · intro found
    exact ⟨List.mem_of_find?_eq_some found,by simpa [EmbeddingSpace.isActive] using List.find?_some found⟩
  · rintro ⟨member,active⟩
    cases found : db.activeSpace with
    | none => exact absurd (List.find?_eq_none.mp found s member) (by simp [EmbeddingSpace.isActive,active])
    | some other =>
      have otherActive : other.status = .Active := by simpa [EmbeddingSpace.isActive] using List.find?_some found
      have otherMember := List.mem_of_find?_eq_some found
      rw [space_name_unique db otherMember member (db.unique.one_active _ otherMember _ member otherActive active)]

theorem findSpace_eq_some (db : Db) {name : String} {s : EmbeddingSpace} :
    db.findSpace name = some s ↔ s ∈ db.embedding_spaces ∧ s.name = name := by
  constructor
  · intro found
    exact ⟨List.mem_of_find?_eq_some found,by simpa using List.find?_some found⟩
  · rintro ⟨member,rfl⟩
    cases found : db.findSpace s.name with
    | none => exact absurd (List.find?_eq_none.mp found s member) (by simp)
    | some other =>
      have sameName : other.name = s.name := by simpa using List.find?_some found
      rw [space_name_unique db (List.mem_of_find?_eq_some found) member sameName]

namespace EmbeddingSpaces

/-- The dimensions fit the signed columns. -/
def DimsFit (fp : EmbeddingFingerprint) : Prop := fp.dim < 2 ^ 63 ∧ ∀ b ∈ fp.matryoshka_base_dim, b < 2 ^ 63

instance (fp : EmbeddingFingerprint) : Decidable (DimsFit fp) := inferInstanceAs (Decidable (_ ∧ _))

def dims_to_sql (fp : EmbeddingFingerprint) : Sql Unit := require (DimsFit fp) (.Internal "embedding dim exceeds i64")

def find_active : Sql (Option EmbeddingSpace) := do
  match ← query (·.embedding_spaces.filter EmbeddingSpace.isActive) with
  | [] => return none
  | [s] => return some s
  | _ => throw (.Internal "multiple active embedding spaces — single-active invariant corrupted")

def find_by_name (name : String) : Sql (Option EmbeddingSpace) := query (·.findSpace name)

/-- Insert a registry row. A second active row is reported as such, any other
    collision as a storage error. -/
def insertRow (space : EmbeddingSpace) : Sql Unit := do
  dims_to_sql space.fingerprint
  let spaces ← query (·.embedding_spaces)
  require (∀ s ∈ spaces, s.name ≠ space.name) (.Storage "UNIQUE constraint failed: embedding_spaces.name")
  require (space.status = .Active → ∀ s ∈ spaces, s.status ≠ .Active)
    (.Internal "embedding_spaces single-active invariant violated")
  execute fun t => { t with embedding_spaces := t.embedding_spaces ++ [space] }

def insert_active (space : EmbeddingSpace) : Sql Unit := insertRow space

def insert_populating (space : EmbeddingSpace) : Sql Unit := insertRow { space with status := .Populating }

def begin_populating (space : EmbeddingSpace) : Sql Unit := do
  match ← find_by_name space.name with
  | none => insert_populating space
  | some existing =>
    require (existing.status = .Populating ∧ existing.fingerprint = space.fingerprint)
      (.Internal s!"begin_populating: space {space.name} already exists; cannot reopen as populating")

/-- Set the status of the named space. -/
def setStatus (t : Tables) (name : String) (status : SpaceStatus) : Tables :=
  { t with embedding_spaces := t.embedding_spaces.map (fun s => if s.name = name then { s with status := status } else s) }

def deprecate_space (name : String) : Sql Unit := execute fun t => setStatus t name .Deprecated

def activate (name : String) : Sql Unit := do
  let spaces ← query (·.embedding_spaces)
  require (∀ s ∈ spaces, s.name ≠ name → s.status ≠ .Active ∨ ∀ r ∈ spaces, r.name ≠ name)
    (.Internal "embedding_spaces single-active invariant violated")
  execute fun t => setStatus t name .Active

/-- Stamp the active row in place, or seed the default one. -/
def upsert_active_fingerprint (fp : EmbeddingFingerprint) : Sql Unit := do
  dims_to_sql fp
  match ← query (·.activeSpace) with
  | some _ => execute fun t => { t with
      embedding_spaces := t.embedding_spaces.map (fun s => if s.isActive then { s with fingerprint := fp } else s) }
  | none => do
    let spaces ← query (·.embedding_spaces)
    require (∀ s ∈ spaces, s.name ≠ EmbeddingSpace.DEFAULT_NAME) (.Storage "UNIQUE constraint failed: embedding_spaces.name")
    execute fun t => { t with embedding_spaces := t.embedding_spaces ++ [⟨EmbeddingSpace.DEFAULT_NAME,fp,.Active⟩] }

end EmbeddingSpaces

namespace EmbeddingMeta
open EmbeddingSpaces

def load : Sql (Option EmbeddingFingerprint) := do
  return (← find_active).map EmbeddingSpace.fingerprint

def ensure_match (stored candidate : EmbeddingFingerprint) : Sql Unit :=
  require (stored = candidate) (.EmbeddingModelMismatch stored candidate)

def record_if_absent (candidate : EmbeddingFingerprint) (expected_dim : Nat) : Sql EmbeddingFingerprint := do
  match ← load with
  | some stored =>
    ensure_match stored candidate
    return stored
  | none =>
    require (candidate.dim = expected_dim) (.EmbeddingDimension expected_dim candidate.dim)
    upsert_active_fingerprint candidate
    return candidate

def require_present : Sql Unit := do
  let stored ← load
  require (stored ≠ none) (.Internal
    "cannot write a pre-computed embedding to a store with no embedding identity; write a fact first")

end EmbeddingMeta

namespace EmbeddingSpaces

theorem filter_active (db : Db) : db.embedding_spaces.filter EmbeddingSpace.isActive = db.activeSpace.toList := by
  have alike : ∀ a ∈ db.embedding_spaces.filter EmbeddingSpace.isActive,
      ∀ b ∈ db.embedding_spaces.filter EmbeddingSpace.isActive, a = b := by
    intro a left b right
    obtain ⟨left,leftActive⟩ := List.mem_filter.mp left
    obtain ⟨right,rightActive⟩ := List.mem_filter.mp right
    simp only [EmbeddingSpace.isActive,beq_iff_eq] at leftActive rightActive
    exact space_name_unique db left right (db.unique.one_active _ left _ right leftActive rightActive)
  have nodup : (db.embedding_spaces.filter EmbeddingSpace.isActive).Nodup :=
    (List.Nodup.of_map _ db.unique.spaces).filter _
  rw [Tables.activeSpace,← List.head?_filter]
  match shape : db.embedding_spaces.filter EmbeddingSpace.isActive with
  | [] => rfl
  | [s] => rfl
  | a :: b :: rest =>
    rw [shape] at alike nodup
    exact absurd (alike a (by simp) b (by simp)) (fun same => by simp [same] at nodup)

@[simp] theorem commits_find_active {db db' : Db} {r : Option EmbeddingSpace} :
    Commits find_active db r db' ↔ r = db.activeSpace ∧ db' = db := by
  simp only [find_active,commits_bind,commits_query]
  constructor
  · rintro ⟨_,m,⟨rfl,rfl⟩,rest⟩
    rw [filter_active] at rest
    cases found : m.activeSpace <;> rw [found] at rest <;> exact commits_pure.mp rest
  · rintro ⟨rfl,rfl⟩
    refine ⟨_,_,⟨rfl,rfl⟩,?_⟩
    rw [filter_active]
    cases db'.activeSpace <;> exact commits_pure.mpr ⟨rfl,rfl⟩

@[simp] theorem commits_find_by_name {name : String} {db db' : Db} {r : Option EmbeddingSpace} :
    Commits (find_by_name name) db r db' ↔ r = db.findSpace name ∧ db' = db := commits_query

end EmbeddingSpaces

namespace EmbeddingMeta

@[simp] theorem commits_load {db db' : Db} {r : Option EmbeddingFingerprint} :
    Commits load db r db' ↔ r = db.activeSpace.map EmbeddingSpace.fingerprint ∧ db' = db := by
  simp only [load,commits_bind,EmbeddingSpaces.commits_find_active,commits_pure]
  constructor
  · rintro ⟨_,_,⟨rfl,rfl⟩,rfl,rfl⟩
    exact ⟨rfl,rfl⟩
  · rintro ⟨rfl,rfl⟩
    exact ⟨_,_,⟨rfl,rfl⟩,rfl,rfl⟩

@[simp] theorem commits_require_present {db db' : Db} {u : Unit} :
    Commits require_present db u db' ↔ db.activeSpace ≠ none ∧ db' = db := by
  simp only [require_present,commits_bind,commits_load,commits_require]
  constructor
  · rintro ⟨_,_,⟨rfl,rfl⟩,present,rfl⟩
    exact ⟨by simpa using present,rfl⟩
  · rintro ⟨present,rfl⟩
    exact ⟨_,_,⟨rfl,rfl⟩,by simpa using present,rfl⟩

/-- An identity is recorded only where there is none, and agrees with the one there is. -/
theorem commits_record_if_absent {candidate stored : EmbeddingFingerprint} {expected_dim : Nat} {s t : Db}
    (committed : Commits (record_if_absent candidate expected_dim) s stored t) :
    (s.activeSpace.map EmbeddingSpace.fingerprint = some candidate ∧ t = s) ∨
      (s.activeSpace = none ∧ candidate.dim = expected_dim ∧ t.toTables = { s.toTables with
        embedding_spaces := s.embedding_spaces ++ [⟨EmbeddingSpace.DEFAULT_NAME,candidate,.Active⟩] }) := by
  obtain ⟨found,_,loaded,recording⟩ := commits_bind.mp committed
  obtain ⟨rfl,rfl⟩ := commits_load.mp loaded
  split at recording
  · rename_i present
    obtain ⟨_,_,matched,last⟩ := commits_bind.mp recording
    obtain ⟨same,rfl⟩ := commits_require.mp matched
    exact .inl ⟨same ▸ present,(commits_pure.mp last).2⟩
  · rename_i absent
    obtain ⟨_,_,fitting,storing⟩ := commits_bind.mp recording
    obtain ⟨fits,rfl⟩ := commits_require.mp fitting
    obtain ⟨_,m,stored,last⟩ := commits_bind.mp storing
    obtain ⟨_,rfl⟩ := commits_pure.mp last
    obtain ⟨_,_,sized,updating⟩ := commits_bind.mp stored
    obtain ⟨_,rfl⟩ := commits_require.mp sized
    obtain ⟨_,_,active,seeding⟩ := commits_bind.mp updating
    obtain ⟨rfl,rfl⟩ := commits_query.mp active
    have none := Option.map_eq_none_iff.mp absent
    rw [none] at seeding
    obtain ⟨_,_,listed,naming⟩ := commits_bind.mp seeding
    obtain ⟨rfl,rfl⟩ := commits_query.mp listed
    obtain ⟨_,_,unused,inserting⟩ := commits_bind.mp naming
    obtain ⟨_,rfl⟩ := commits_require.mp unused
    exact .inr ⟨none,fits,commits_execute.mp inserting⟩

end EmbeddingMeta
end MemoryEngine
