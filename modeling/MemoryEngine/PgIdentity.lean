import MemoryEngine.Attribution

/-! Recording the embedding identity on the Postgres backend. Each statement commits on its
own, so between the check, the update and the insert of one call the statements of other
calls may run. -/

namespace MemoryEngine

/-- The registry of embedding spaces, under its primary key and its partial unique index. -/
structure PgSpaces where
  rows : List EmbeddingSpace
  names : (rows.map EmbeddingSpace.name).Nodup
  one_active : ∀ a ∈ rows, ∀ b ∈ rows, a.status = .Active → b.status = .Active → a = b

namespace PgSpaces

/-- The identity of the active row. -/
def identity (s : PgSpaces) : Option EmbeddingFingerprint := (s.rows.find? EmbeddingSpace.isActive).map EmbeddingSpace.fingerprint

def restamp (fp : EmbeddingFingerprint) (row : EmbeddingSpace) : EmbeddingSpace := if row.isActive then { row with fingerprint := fp } else row

theorem restamp_name (fp : EmbeddingFingerprint) (row : EmbeddingSpace) : (restamp fp row).name = row.name := by
  unfold restamp
  split <;> rfl

theorem restamp_status (fp : EmbeddingFingerprint) (row : EmbeddingSpace) : (restamp fp row).status = row.status := by
  unfold restamp
  split <;> rfl

/-- `UPDATE … WHERE status = 'active'` -/
def update_active (fp : EmbeddingFingerprint) (s : PgSpaces) : PgSpaces where
  rows := s.rows.map (restamp fp)
  names := by
    have same : (s.rows.map (restamp fp)).map EmbeddingSpace.name = s.rows.map EmbeddingSpace.name := by
      rw [List.map_map]
      exact List.map_congr_left fun row _ => restamp_name fp row
    rw [same]
    exact s.names
  one_active := by
    intro a left b right active active'
    obtain ⟨row,member,rfl⟩ := List.mem_map.mp left
    obtain ⟨row',member',rfl⟩ := List.mem_map.mp right
    rw [restamp_status] at active active'
    rw [s.one_active row member row' member' active active']

theorem identity_update (fp : EmbeddingFingerprint) (s : PgSpaces) : (s.update_active fp).identity = s.identity.map fun _ => fp := by
  unfold identity update_active
  have active : ∀ row, (restamp fp row).isActive = row.isActive := fun row => by
    rw [EmbeddingSpace.isActive,EmbeddingSpace.isActive,restamp_status]
  rw [List.find?_map,Option.map_map,Option.map_map]
  have same : EmbeddingSpace.isActive ∘ restamp fp = EmbeddingSpace.isActive := funext active
  rw [same]
  cases found : s.rows.find? EmbeddingSpace.isActive with
  | none => rfl
  | some row =>
    have serves := List.find?_some found
    simp [restamp,serves]

/-- The rows that the update changes. -/
def updated (s : PgSpaces) : Nat := s.rows.countP EmbeddingSpace.isActive

theorem updated_eq_zero {s : PgSpaces} : s.updated = 0 ↔ s.identity = none := by
  unfold updated identity
  rw [List.countP_eq_zero,Option.map_eq_none_iff,List.find?_eq_none]

def defaultRow (fp : EmbeddingFingerprint) : EmbeddingSpace := ⟨EmbeddingSpace.DEFAULT_NAME,fp,.Active⟩

/-- The key and the index have room for the default row. -/
def Room (s : PgSpaces) : Prop := ∀ row ∈ s.rows, row.name ≠ EmbeddingSpace.DEFAULT_NAME ∧ row.status ≠ .Active

instance (s : PgSpaces) : Decidable s.Room := inferInstanceAs (Decidable (∀ row ∈ s.rows, _))

/-- `INSERT` of the default row -/
def insert_default (fp : EmbeddingFingerprint) (s : PgSpaces) (room : s.Room) : PgSpaces where
  rows := s.rows ++ [defaultRow fp]
  names := by
    rw [List.map_append,List.map_singleton,← List.concat_eq_append]
    refine List.Nodup.concat (fun listed => ?_) s.names
    obtain ⟨row,member,same⟩ := List.mem_map.mp listed
    exact (room row member).1 same
  one_active := by
    intro a left b right active active'
    rcases List.mem_append.mp left with old | new
    · exact absurd active (room a old).2
    · rcases List.mem_append.mp right with old' | new'
      · exact absurd active' (room b old').2
      · rw [List.mem_singleton.mp new,List.mem_singleton.mp new']

theorem identity_insert (fp : EmbeddingFingerprint) {s : PgSpaces} (room : s.Room) : (s.insert_default fp room).identity = some fp := by
  have none_ : s.rows.find? EmbeddingSpace.isActive = none := by
    refine List.find?_eq_none.mpr fun row member => ?_
    simpa [EmbeddingSpace.isActive] using (room row member).2
  unfold identity insert_default
  rw [List.find?_append,none_]
  rfl

end PgSpaces

/-- The texts can be sent: the server takes no NUL in a text. -/
def EmbeddingFingerprint.TextsFit (fp : EmbeddingFingerprint) : Prop :=
  ∀ text ∈ [fp.model,fp.provider,fp.element_type], Char.ofNat 0 ∉ text.toList

instance (fp : EmbeddingFingerprint) : Decidable fp.TextsFit := inferInstanceAs (Decidable (∀ text ∈ [_,_,_], _))

/-- One call of `record_embedding_fingerprint_if_absent`. -/
structure RecordCall where
  read_only : Bool
  candidate : EmbeddingFingerprint
  expected_dim : Nat

/-- How far a call has come: nothing done, no identity found, no row updated, returned. -/
inductive RecordProgress where
  | called
  | absent
  | unmatched
  | returned (result : Except MemoryError EmbeddingFingerprint)

namespace RecordCall

/-- The driver reports a failed statement under one text. -/
def pg_err : MemoryError := .Storage "db error"

def ensure_match (stored candidate : EmbeddingFingerprint) : Except MemoryError EmbeddingFingerprint :=
  if stored = candidate then .ok stored else .error (.EmbeddingModelMismatch stored candidate)

/-- The next statement of a call, with all that the call does up to the one after it. -/
def advance (call : RecordCall) (s : PgSpaces) : RecordProgress → RecordProgress × PgSpaces
  | .called =>
    if call.read_only then (.returned (.error .ReadOnly),s) else
    match s.identity with
    | some stored => (.returned (ensure_match stored call.candidate),s)
    | none =>
      if call.candidate.dim = call.expected_dim then (.absent,s)
      else (.returned (.error (.EmbeddingDimension call.expected_dim call.candidate.dim)),s)
  | .absent =>
    if ¬ EmbeddingSpaces.DimsFit call.candidate then (.returned (.error (.Internal "embedding fingerprint dim overflows i64")),s) else
    if ¬ call.candidate.TextsFit then (.returned (.error pg_err),s) else
    (if s.updated = 0 then .unmatched else .returned (.ok call.candidate),s.update_active call.candidate)
  | .unmatched =>
    if room : s.Room then (.returned (.ok call.candidate),s.insert_default call.candidate room) else (.returned (.error pg_err),s)
  | .returned result => (.returned result,s)

end RecordCall

/-- The registry and every call, by number. -/
structure PgRace where
  spaces : PgSpaces
  progress : Nat → RecordProgress

namespace PgRace

/-- A call runs its next statement, or loses its connection. -/
inductive Event where
  | statement (i : Nat)
  | drop (i : Nat)

def dropped : RecordProgress → RecordProgress
  | .returned result => .returned result
  | _ => .returned (.error RecordCall.pg_err)

section race
variable (calls : Nat → RecordCall)

def step (r : PgRace) : Event → PgRace
  | .statement i => ⟨((calls i).advance r.spaces (r.progress i)).2,Function.update r.progress i ((calls i).advance r.spaces (r.progress i)).1⟩
  | .drop i => ⟨r.spaces,Function.update r.progress i (dropped (r.progress i))⟩

/-- What callers may rely on: a call that returns gives the recorded identity, and none that
    asks for another one does. -/
structure Contract (r : PgRace) : Prop where
  returns : ∀ i fp, r.progress i = .returned (.ok fp) → r.spaces.identity = some fp
  refuses : ∀ i recorded, r.spaces.identity = some recorded → (calls i).candidate ≠ recorded → ∀ fp, r.progress i ≠ .returned (.ok fp)

/-- The contract holds in every state, and no event changes a recorded identity. -/
def Keeps (r : PgRace) : List Event → Prop
  | [] => Contract calls r
  | event :: rest => Contract calls r ∧ (∀ fp, r.spaces.identity = some fp → (step calls r event).spaces.identity = some fp) ∧
      Keeps (step calls r event) rest

/-- The event is the update of a call that asks for another identity than the recorded one. -/
def Overwrites (r : PgRace) : Event → Prop
  | .statement i => r.progress i = .absent ∧ EmbeddingSpaces.DimsFit (calls i).candidate ∧ (calls i).candidate.TextsFit ∧
      ∃ recorded, r.spaces.identity = some recorded ∧ recorded ≠ (calls i).candidate
  | .drop _ => False

/-- No event of the run overwrites. -/
def Timely (r : PgRace) : List Event → Prop
  | [] => True
  | event :: rest => ¬ Overwrites calls r event ∧ Timely (step calls r event) rest

variable {calls}

/-- A call that returned has found or written its own candidate. -/
def Honest (calls : Nat → RecordCall) (r : PgRace) : Prop :=
  ∀ i fp, r.progress i = .returned (.ok fp) → r.spaces.identity = some fp ∧ (calls i).candidate = fp

theorem honest_iff {r : PgRace} : Honest calls r ↔ Contract calls r := by
  constructor
  · intro honest
    refine ⟨fun i fp returned => (honest i fp returned).1,fun i recorded known other fp returned => ?_⟩
    obtain ⟨own,asked⟩ := honest i fp returned
    rw [known] at own
    exact other (asked.trans (Option.some.inj own).symm)
  · intro contract i fp returned
    have known := contract.returns i fp returned
    refine ⟨known,?_⟩
    by_contra other
    exact contract.refuses i fp known other fp returned

end race
end PgRace

namespace RecordCall
variable {call : RecordCall} {s : PgSpaces}

/-- What a statement does to the registry: nothing, the update, or the insert. -/
theorem advance_cases (call : RecordCall) (s : PgSpaces) (p : RecordProgress) :
    ((call.advance s p).2 = s ∧ ∀ fp, (call.advance s p).1 = .returned (.ok fp) →
        p = .returned (.ok fp) ∨ s.identity = some fp ∧ call.candidate = fp) ∨
      (p = .absent ∧ EmbeddingSpaces.DimsFit call.candidate ∧ call.candidate.TextsFit ∧
        call.advance s p = (if s.updated = 0 then .unmatched else .returned (.ok call.candidate),s.update_active call.candidate)) ∨
      ∃ room : s.Room, call.advance s p = (.returned (.ok call.candidate),s.insert_default call.candidate room) := by
  cases p with
  | returned result => exact .inl ⟨rfl,fun fp same => .inl same⟩
  | called =>
    refine .inl ?_
    unfold advance
    by_cases closed : call.read_only = true
    · rw [if_pos closed]
      exact ⟨rfl,fun fp same => by cases same⟩
    rw [if_neg closed]
    cases known : s.identity with
    | some stored =>
      refine ⟨rfl,fun fp same => .inr ?_⟩
      have matched : ensure_match stored call.candidate = .ok fp := RecordProgress.returned.inj same
      unfold ensure_match at matched
      by_cases equal : stored = call.candidate
      · rw [if_pos equal] at matched
        cases matched
        exact ⟨rfl,equal.symm⟩
      · rw [if_neg equal] at matched
        cases matched
    | none =>
      dsimp only
      by_cases sized : call.candidate.dim = call.expected_dim
      · rw [if_pos sized]
        exact ⟨rfl,fun fp same => by cases same⟩
      · rw [if_neg sized]
        exact ⟨rfl,fun fp same => by cases same⟩
  | absent =>
    unfold advance
    by_cases dims : EmbeddingSpaces.DimsFit call.candidate
    · by_cases texts : call.candidate.TextsFit
      · rw [if_neg (not_not.mpr dims),if_neg (not_not.mpr texts)]
        exact .inr (.inl ⟨rfl,dims,texts,rfl⟩)
      · rw [if_neg (not_not.mpr dims),if_pos texts]
        exact .inl ⟨rfl,fun fp same => by cases same⟩
    · rw [if_pos dims]
      exact .inl ⟨rfl,fun fp same => by cases same⟩
  | unmatched =>
    unfold advance
    by_cases room : s.Room
    · rw [dif_pos room]
      exact .inr (.inr ⟨room,rfl⟩)
    · rw [dif_neg room]
      exact .inl ⟨rfl,fun fp same => by cases same⟩

end RecordCall

namespace PgRace
variable {calls : Nat → RecordCall} {r : PgRace}

theorem room_identity {s : PgSpaces} (room : s.Room) : s.identity = none := by
  refine Option.map_eq_none_iff.mpr (List.find?_eq_none.mpr fun row member => ?_)
  simpa [EmbeddingSpace.isActive] using (room row member).2

/-- An event that does not overwrite leaves a recorded identity as it is. -/
theorem identity_step {event : Event} (timely : ¬ Overwrites calls r event) {fp : EmbeddingFingerprint} (known : r.spaces.identity = some fp) :
    (step calls r event).spaces.identity = some fp := by
  cases event with
  | drop i => exact known
  | statement i =>
    change ((calls i).advance r.spaces (r.progress i)).2.identity = some fp
    rcases RecordCall.advance_cases (calls i) r.spaces (r.progress i) with ⟨same,_⟩ | ⟨absent,dims,texts,ran⟩ | ⟨room,_⟩
    · rw [same]
      exact known
    · have asked : fp = (calls i).candidate := by
        by_contra other
        exact timely ⟨absent,dims,texts,fp,known,other⟩
      rw [ran,PgSpaces.identity_update,known,asked]
      rfl
    · rw [room_identity room] at known
      cases known

/-- An event that does not overwrite keeps the calls honest. -/
theorem honest_step {event : Event} (honest : Honest calls r) (timely : ¬ Overwrites calls r event) : Honest calls (step calls r event) := by
  intro i fp returned
  have before : r.progress i = .returned (.ok fp) → (step calls r event).spaces.identity = some fp ∧ (calls i).candidate = fp := by
    intro earlier
    obtain ⟨known,asked⟩ := honest i fp earlier
    exact ⟨identity_step timely known,asked⟩
  cases event with
  | drop j =>
    by_cases here : i = j
    · subst here
      have moved : dropped (r.progress i) = .returned (.ok fp) := by
        have at_ : (step calls r (.drop i)).progress i = dropped (r.progress i) := Function.update_self i _ _
        rw [← at_]
        exact returned
      cases progress : r.progress i with
      | returned result =>
        rw [progress] at moved
        exact before (progress.trans moved)
      | called => rw [progress] at moved; cases moved
      | absent => rw [progress] at moved; cases moved
      | unmatched => rw [progress] at moved; cases moved
    · have away : (step calls r (.drop j)).progress i = r.progress i := Function.update_of_ne here _ _
      exact before (away.symm.trans returned)
  | statement j =>
    by_cases here : i = j
    · subst here
      have moved : ((calls i).advance r.spaces (r.progress i)).1 = .returned (.ok fp) := by
        have at_ : (step calls r (.statement i)).progress i = ((calls i).advance r.spaces (r.progress i)).1 := Function.update_self i _ _
        rw [← at_]
        exact returned
      change ((calls i).advance r.spaces (r.progress i)).2.identity = some fp ∧ _
      rcases RecordCall.advance_cases (calls i) r.spaces (r.progress i) with ⟨same,reads⟩ | ⟨_,_,_,ran⟩ | ⟨room,ran⟩
      · rcases reads fp moved with earlier | found
        · exact before earlier
        · rw [same]
          exact found
      · rw [ran] at moved ⊢
        by_cases untouched : r.spaces.updated = 0
        · rw [if_pos untouched] at moved
          cases moved
        · rw [if_neg untouched] at moved
          cases moved
          obtain ⟨recorded,known⟩ := Option.ne_none_iff_exists'.mp (mt PgSpaces.updated_eq_zero.mpr untouched)
          exact ⟨by rw [PgSpaces.identity_update,known]; rfl,rfl⟩
      · rw [ran] at moved ⊢
        cases moved
        exact ⟨PgSpaces.identity_insert _ room,rfl⟩
    · have away : (step calls r (.statement j)).progress i = r.progress i := Function.update_of_ne here _ _
      exact before (away.symm.trans returned)

/-- An overwriting update changes the recorded identity. -/
theorem changes_of_overwrites {event : Event} (overwrites : Overwrites calls r event) :
    ∃ fp, r.spaces.identity = some fp ∧ (step calls r event).spaces.identity ≠ some fp := by
  cases event with
  | drop i => exact overwrites.elim
  | statement i =>
    obtain ⟨absent,dims,texts,recorded,known,other⟩ := overwrites
    refine ⟨recorded,known,?_⟩
    change ((calls i).advance r.spaces (r.progress i)).2.identity ≠ some recorded
    have ran : ((calls i).advance r.spaces (r.progress i)).2 = r.spaces.update_active (calls i).candidate := by
      rw [absent,RecordCall.advance,if_neg (not_not.mpr dims),if_neg (not_not.mpr texts)]
    rw [ran,PgSpaces.identity_update,known]
    exact fun same => other (Option.some.inj same).symm

/-- Where the calls are honest, a run keeps the contract exactly when no call runs its
    update while another identity than its candidate is recorded. -/
theorem keeps_iff_timely {events : List Event} (honest : Honest calls r) : Keeps calls r events ↔ Timely calls r events := by
  induction events generalizing r with
  | nil => exact iff_of_true (honest_iff.mp honest) trivial
  | cons event rest ih =>
    constructor
    · rintro ⟨_,stays,later⟩
      have timely : ¬ Overwrites calls r event := by
        intro overwrites
        obtain ⟨fp,known,changed⟩ := changes_of_overwrites overwrites
        exact changed (stays fp known)
      exact ⟨timely,(ih (honest_step honest timely)).mp later⟩
    · rintro ⟨timely,later⟩
      exact ⟨honest_iff.mp honest,fun fp known => identity_step timely known,(ih (honest_step honest timely)).mpr later⟩

/-- Any number of calls, begun on any registry, keep the contract exactly when no call runs
    its update while another identity than its candidate is recorded. -/
theorem record_keeps_iff_timely (spaces : PgSpaces) (calls : Nat → RecordCall) (events : List Event) :
    Keeps calls ⟨spaces,fun _ => .called⟩ events ↔ Timely calls ⟨spaces,fun _ => .called⟩ events := by
  refine keeps_iff_timely fun i fp returned => ?_
  cases returned

end PgRace

/-- The transaction of the SQLite backend returns the recorded identity, which is the
    candidate, and changes none that is there. -/
theorem EmbeddingMeta.record_if_absent_contract {candidate stored : EmbeddingFingerprint} {expected_dim : Nat} {s t : Db}
    (committed : Transaction.Commits (record_if_absent candidate expected_dim) s stored t) :
    t.activeSpace.map EmbeddingSpace.fingerprint = some candidate ∧
      ∀ fp, s.activeSpace.map EmbeddingSpace.fingerprint = some fp → t = s := by
  refine ⟨identity_record_if_absent committed,fun fp known => ?_⟩
  rcases commits_record_if_absent committed with ⟨_,same⟩ | ⟨none_,_⟩
  · exact same
  · rw [none_] at known
    cases known

namespace Sample

def noSpaces : PgSpaces := ⟨[],List.nodup_nil,fun _ member => absurd member List.not_mem_nil⟩

/-- Two calls with two models of one dimension. -/
def firstWriters (i : Nat) : RecordCall := ⟨false,⟨if i = 0 then "a" else "b","p",1,none,"float32"⟩,1⟩

end Sample

namespace PgRace

/-- Both calls find no identity; the update of the second runs after the insert of the first
    and replaces what the first has recorded and returned. -/
theorem second_writer_overwrites : ¬ ∀ (spaces : PgSpaces) (calls : Nat → RecordCall) (events : List Event), spaces.identity = none →
    Keeps calls ⟨spaces,fun _ => .called⟩ events := by
  intro claim
  have kept := claim Sample.noSpaces Sample.firstWriters
    [.statement 0,.statement 1,.statement 0,.statement 0,.statement 1] rfl
  have stays := kept.2.2.2.2.2.2.2.2.2.1 (Sample.firstWriters 0).candidate (by decide +kernel)
  revert stays
  decide +kernel

end PgRace
end MemoryEngine
