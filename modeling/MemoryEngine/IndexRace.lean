import MemoryEngine.VectorNotices

/-! Writers and rebuilds of the vector index at the same time. A writer commits first and
tells the index later, one call at a time; a rebuild holds the lock of the index from its
scan of the database to the swap, and nobody tells the index anything in between. -/

namespace MemoryEngine
open Time KeyedTable Transaction

/-- One call of the index. An error goes to the writer and leaves the index as it was. -/
def HnswInner.told {hnsw : Hnsw} (inner : HnswInner hnsw) : Notice → HnswInner hnsw
  | .insert fact_id embedding =>
    match inner.notify_insert fact_id embedding with
    | .ok inner' => inner'
    | .error _ => inner
  | .expire fact_id => inner.notify_expire fact_id

/-- What each writer in flight still has to tell the index, the database as a rebuild
    found it, and, for the account only, the facts that bootstraps have written since. -/
structure IndexRace (hnsw : Hnsw) where
  storage : Db
  index : HnswInner hnsw
  pending : List (List Notice)
  scan : Option Db
  bootstrapped : List FactId

namespace IndexRace
variable {hnsw : Hnsw} {self : SqliteBackend}

/-- The facts that a bootstrap has written. -/
def written (call : PortWrite) (s t : Db) : List FactId :=
  match call with
  | .ingest_bootstrap_batch_atomic _ _ _ _ _ => (t.facts.rows.map Fact.id).filter fun id => s.facts.seq < id
  | _ => []

/-- Every call of the storage port but the deletion of facts, which neither inserts nor
    expires any; the calls of the index by a writer in order, those of different writers in
    any order; and rebuilds, which may fail and then leave the index as it was. -/
inductive Step (self : SqliteBackend) (r : IndexRace hnsw) : IndexRace hnsw → Prop where
  | commit {call : PortWrite} {notices : List Notice} {db : Db} (keeps : ∀ ids, call ≠ .hard_delete_facts ids)
      (committed : Commits (call.notices self) r.storage notices db) :
      Step self r { r with storage := db, pending := r.pending ++ [notices], bootstrapped := r.bootstrapped ++ written call r.storage db }
  | notify {front back : List (List Notice)} {notice : Notice} {rest : List Notice} (unlocked : r.scan = none)
      (turn : r.pending = front ++ (notice :: rest) :: back) :
      Step self r { r with index := r.index.told notice, pending := front ++ rest :: back }
  | scan (unlocked : r.scan = none) : Step self r { r with scan := some r.storage }
  | swap {found : Db} {inner : HnswInner hnsw} (scanned : r.scan = some found)
      (built : HnswInner.build_inner hnsw found.toTables self.embed_dim = .ok inner) :
      Step self r { r with index := inner, scan := none, bootstrapped := r.bootstrapped.filter fun id => !decide (found.facts.Has id) }
  | abandon {found : Db} (scanned : r.scan = some found) : Step self r { r with scan := none }

/-- From an index that has just been built. -/
inductive Run (hnsw : Hnsw) (self : SqliteBackend) : IndexRace hnsw → Prop where
  | start {db : Db} {inner : HnswInner hnsw} (built : HnswInner.build_inner hnsw db.toTables self.embed_dim = .ok inner) :
      Run hnsw self ⟨db,inner,[],none,[]⟩
  | step {r r' : IndexRace hnsw} (before : Run hnsw self r) (step : Step self r r') : Run hnsw self r'

variable {r r' : IndexRace hnsw}

/-- Some writer has yet to tell of the fact. -/
def Announced (pending : List (List Notice)) (id : FactId) : Prop := ∃ queue ∈ pending, ∃ v, Notice.insert id v ∈ queue

/-- No active fact falls between the writers and the index, not even one that is replaced. -/
structure Covered (r : IndexRace hnsw) : Prop where
  sound : r.index.Sound
  cold : ∀ queue ∈ r.pending, ∀ id, Notice.expire id ∈ queue → id ≤ r.storage.facts.seq ∧ ¬ r.storage.IsActive id
  known : ∀ id, r.storage.IsActive id → r.index.Live id ∨ Announced r.pending id ∨ id ∈ r.bootstrapped
  scanned : ∀ found, r.scan = some found → found.toTables.Ages r.storage.toTables ∧
    ∀ id, r.storage.IsActive id → found.IsActive id ∨ Announced r.pending id ∨ id ∈ r.bootstrapped ∧ ¬ found.facts.Has id

theorem told_insert (sequential : hnsw.Sequential) {inner : HnswInner hnsw} (sound : inner.Sound) (fact_id : FactId) (v : Embedding) :
    (inner.told (.insert fact_id v)).Sound ∧ (inner.told (.insert fact_id v)).vector = Function.update inner.vector fact_id (some v) := by
  obtain ⟨inner',done,sound',vector⟩ := HnswInner.sound_notify_insert sequential sound fact_id v
  have told : inner.told (.insert fact_id v) = inner' := by simp only [HnswInner.told,done]
  rw [told]
  exact ⟨sound',vector⟩

/-- An index built from a database has its active facts live. -/
theorem live_built (sequential : hnsw.Sequential) {db : Db} {embed_dim : Nat} {inner : HnswInner hnsw}
    (built : HnswInner.build_inner hnsw db.toTables embed_dim = .ok inner) : inner.Sound ∧ ∀ id, db.IsActive id → inner.Live id := by
  obtain ⟨inner',built',sound,meaning⟩ := HnswInner.sound_build_inner sequential (HnswInner.sized_of_build built)
  rw [built] at built'
  cases built'
  refine ⟨sound,fun id active => ?_⟩
  obtain ⟨f,member,same,expiry⟩ := active
  exact sound.live_iff.mpr ⟨f.embedding,(meaning id f.embedding).mpr ⟨f,List.mem_filter.mpr ⟨member,by simp [expiry]⟩,same,rfl⟩⟩

/-- An active fact is an active fact of before, or told of, or from a bootstrap. -/
theorem arrived {call : PortWrite} {notices : List Notice} {s t : Db} (committed : Commits (call.notices self) s notices t) {id : FactId}
    (active : t.IsActive id) : s.IsActive id ∨ s.facts.seq < id ∧ ((∃ v, Notice.insert id v ∈ notices) ∨ id ∈ written call s t) := by
  obtain ⟨f,member,rfl,expiry⟩ := active
  by_cases old : f.id ≤ s.facts.seq
  · have ages := PortWrite.ages self (PortWrite.run_of_notices committed)
    obtain ⟨before,held,same,later⟩ := ages.facts.old f member old
    exact .inl ⟨before,held,same,later expiry⟩
  · have fresh := not_le.mp old
    refine .inr ⟨fresh,?_⟩
    rcases PortWrite.arrived_notices committed member fresh with bootstraps | told
    · cases call with
      | ingest_bootstrap_batch_atomic marker skip_if_present facts fingerprint expected_dim =>
        exact .inr (List.mem_filter.mpr ⟨List.mem_map_of_mem member,decide_eq_true fresh⟩)
      | _ => cases bootstraps
    · exact .inl ⟨f.embedding,told⟩

theorem covered_commit (covered : r.Covered) {call : PortWrite} {notices : List Notice} {db : Db} (keeps : ∀ ids, call ≠ .hard_delete_facts ids)
    (committed : Commits (call.notices self) r.storage notices db) :
    Covered { r with storage := db, pending := r.pending ++ [notices], bootstrapped := r.bootstrapped ++ written call r.storage db } := by
  have ages := PortWrite.ages self (PortWrite.run_of_notices committed)
  have grows : ∀ id, Announced r.pending id → Announced (r.pending ++ [notices]) id := by
    rintro id ⟨queue,waiting,told⟩
    exact ⟨queue,List.mem_append_left _ waiting,told⟩
  have told : ∀ id, (∃ v, Notice.insert id v ∈ notices) → Announced (r.pending ++ [notices]) id := by
    rintro id ⟨v,listed⟩
    exact ⟨notices,List.mem_append_right _ (List.mem_singleton_self _),v,listed⟩
  refine ⟨covered.sound,?_,?_,?_⟩
  · intro queue waiting id expired
    rcases List.mem_append.mp waiting with before | now
    · have cold : Cold [id] r.storage.toTables := fun other listed => by
        rw [List.mem_singleton.mp listed]
        exact covered.cold queue before id expired
      exact cold.later ages id (List.mem_singleton_self _)
    · rw [List.mem_singleton.mp now] at expired
      exact PortWrite.cold_notices keeps committed expired
  · intro id active
    rcases arrived committed active with old | ⟨_,now | booted⟩
    · rcases covered.known id old with live | announced | booted
      · exact .inl live
      · exact .inr (.inl (grows id announced))
      · exact .inr (.inr (List.mem_append_left _ booted))
    · exact .inr (.inl (told id now))
    · exact .inr (.inr (List.mem_append_right _ booted))
  · intro found scanned
    obtain ⟨before,seen⟩ := covered.scanned found scanned
    refine ⟨before.trans ages,fun id active => ?_⟩
    rcases arrived committed active with old | ⟨fresh,now | booted⟩
    · rcases seen id old with still | announced | ⟨booted,unseen⟩
      · exact .inl still
      · exact .inr (.inl (grows id announced))
      · exact .inr (.inr ⟨List.mem_append_left _ booted,unseen⟩)
    · exact .inr (.inl (told id now))
    · refine .inr (.inr ⟨List.mem_append_right _ booted,?_⟩)
      rintro ⟨f,member,rfl⟩
      exact absurd ((found.facts.allocated f member).trans before.facts.seq) (not_le.mpr fresh)

theorem covered_notify (sequential : hnsw.Sequential) (covered : r.Covered) {front back : List (List Notice)} {notice : Notice} {rest : List Notice}
    (unlocked : r.scan = none) (turn : r.pending = front ++ (notice :: rest) :: back) :
    Covered { r with index := r.index.told notice, pending := front ++ rest :: back } := by
  have shrinks : ∀ {queue : List Notice}, queue ∈ front ++ rest :: back → ∃ whole ∈ r.pending, queue ⊆ whole := by
    intro queue waiting
    rw [turn]
    rcases List.mem_append.mp waiting with before | after
    · exact ⟨queue,List.mem_append_left _ before,List.Subset.refl _⟩
    · rcases List.mem_cons.mp after with rfl | behind
      · exact ⟨notice :: queue,List.mem_append_right _ List.mem_cons_self,List.subset_cons_self _ _⟩
      · exact ⟨queue,List.mem_append_right _ (List.mem_cons_of_mem _ behind),List.Subset.refl _⟩
  have waits : ∀ id, Announced r.pending id → (∃ v, notice = .insert id v) ∨ Announced (front ++ rest :: back) id := by
    rintro id ⟨queue,waiting,v,told⟩
    rw [turn] at waiting
    rcases List.mem_append.mp waiting with before | after
    · exact .inr ⟨queue,List.mem_append_left _ before,v,told⟩
    · rcases List.mem_cons.mp after with rfl | behind
      · rcases List.mem_cons.mp told with same | later
        · exact .inl ⟨v,same.symm⟩
        · exact .inr ⟨rest,List.mem_append_right _ List.mem_cons_self,v,later⟩
      · exact .inr ⟨queue,List.mem_append_right _ (List.mem_cons_of_mem _ behind),v,told⟩
  have cold : ∀ queue ∈ front ++ rest :: back, ∀ id, Notice.expire id ∈ queue → id ≤ r.storage.facts.seq ∧ ¬ r.storage.IsActive id := by
    intro queue waiting id expired
    obtain ⟨whole,held,within⟩ := shrinks waiting
    exact covered.cold whole held id (within expired)
  have idle : ∀ found, r.scan = some found → False := fun found scanned => by rw [unlocked] at scanned; cases scanned
  cases notice with
  | insert fact_id v =>
    obtain ⟨sound,vector⟩ := told_insert sequential covered.sound fact_id v
    refine ⟨sound,cold,fun id active => ?_,fun found scanned => absurd scanned (idle found)⟩
    have live : id = fact_id ∨ r.index.Live id → (r.index.told (.insert fact_id v)).Live id := by
      intro either
      rw [sound.live_iff,vector]
      by_cases same : id = fact_id
      · exact ⟨v,by simp [same]⟩
      · rw [Function.update_of_ne same]
        exact covered.sound.live_iff.mp (either.resolve_left same)
    rcases covered.known id active with before | announced | booted
    · exact .inl (live (.inr before))
    · rcases waits id announced with ⟨w,same⟩ | still
      · cases same
        exact .inl (live (.inl rfl))
      · exact .inr (.inl still)
    · exact .inr (.inr booted)
  | expire fact_id =>
    have gone := (covered.cold (.expire fact_id :: rest) (turn ▸ List.mem_append_right _ List.mem_cons_self) fact_id List.mem_cons_self).2
    obtain ⟨sound,vector⟩ := HnswInner.sound_notify_expire covered.sound fact_id
    refine ⟨sound,cold,fun id active => ?_,fun found scanned => absurd scanned (idle found)⟩
    rcases covered.known id active with before | announced | booted
    · have other : id ≠ fact_id := fun same => gone (same ▸ active)
      refine .inl (sound.live_iff.mpr ?_)
      rw [vector,Function.update_of_ne other]
      exact covered.sound.live_iff.mp before
    · rcases waits id announced with ⟨w,same⟩ | still
      · cases same
      · exact .inr (.inl still)
    · exact .inr (.inr booted)

theorem covered_swap (sequential : hnsw.Sequential) (covered : r.Covered) {found : Db} {inner : HnswInner hnsw} (scanned : r.scan = some found)
    (built : HnswInner.build_inner hnsw found.toTables self.embed_dim = .ok inner) :
    Covered { r with index := inner, scan := none, bootstrapped := r.bootstrapped.filter fun id => !decide (found.facts.Has id) } := by
  obtain ⟨sound,live⟩ := live_built sequential built
  refine ⟨sound,covered.cold,fun id active => ?_,fun _ locked => by cases locked⟩
  rcases (covered.scanned found scanned).2 id active with before | announced | ⟨booted,unseen⟩
  · exact .inl (live id before)
  · exact .inr (.inl announced)
  · exact .inr (.inr (List.mem_filter.mpr ⟨booted,by simpa using unseen⟩))

theorem covered_step (sequential : hnsw.Sequential) (covered : r.Covered) (step : Step self r r') : r'.Covered := by
  cases step with
  | commit keeps committed => exact covered_commit covered keeps committed
  | notify unlocked turn => exact covered_notify sequential covered unlocked turn
  | scan unlocked =>
    refine ⟨covered.sound,covered.cold,covered.known,fun found scanned => ?_⟩
    cases scanned
    exact ⟨.refl _,fun id active => .inl active⟩
  | swap scanned built => exact covered_swap sequential covered scanned built
  | abandon scanned => exact ⟨covered.sound,covered.cold,covered.known,fun _ locked => by cases locked⟩

theorem Run.covered (sequential : hnsw.Sequential) (run : Run hnsw self r) : r.Covered := by
  induction run with
  | start built =>
    obtain ⟨sound,live⟩ := live_built sequential built
    exact ⟨sound,fun _ waiting => absurd waiting List.not_mem_nil,fun id active => .inl (live id active),fun _ locked => by cases locked⟩
  | step before step ih => exact covered_step sequential ih step

/-- Once every writer has told the index, every active fact is live in it, except those
    that bootstraps have written since the last rebuild. -/
theorem live_when_done (sequential : hnsw.Sequential) (run : Run hnsw self r) (done : ∀ queue ∈ r.pending, queue = []) :
    ∀ id, r.storage.IsActive id → r.index.Live id ∨ id ∈ r.bootstrapped := by
  intro id active
  rcases (run.covered sequential).known id active with live | ⟨queue,waiting,v,told⟩ | booted
  · exact .inl live
  · rw [done queue waiting] at told
    cases told
  · exact .inr booted

end IndexRace

namespace Sample

/-- A graph that is the list of its vectors. -/
def hnsw : Hnsw := ⟨List Embedding,[],List.length,fun v g => (g.length,g ++ [v]),fun g i => g[i]?⟩

theorem sequential : hnsw.Sequential where
  empty := rfl
  number := fun _ _ => rfl
  grown := fun _ _ => List.length_append
  stored := fun _ _ => List.getElem?_concat_length
  kept := fun _ _ _ low => List.getElem?_append_left low

end Sample

namespace IndexRace
open MemoryEngine.Sample

/-- A rebuild scans before a fact is committed and swaps before the index is told of it. -/
theorem live_when_done_sample : ∃ r : IndexRace Sample.hnsw, Run Sample.hnsw backend r ∧ r.storage.IsActive 1 ∧
    (r.index.Live 1 ∨ 1 ∈ r.bootstrapped) := by
  have ran : Ends ((PortWrite.insert_fact (newFact "a")).notices backend) Db.fresh (fun _ t => decide (t.IsActive 1)) = true := by decide +kernel
  obtain ⟨notices,db,committed,active⟩ := commits_of_ends ran
  have given : notices = [.insert 1 (newFact "a").embedding] := by
    obtain ⟨id,m,inserted,last⟩ := commits_bind.mp committed
    obtain ⟨_,_,_,rfl,_⟩ := FactStore.commits_insert.mp inserted
    exact (commits_pure.mp last).1
  have sized : ∀ f ∈ Db.fresh.activeFacts, f.embedding.length = backend.embed_dim := by decide
  obtain ⟨inner,built,_,_⟩ := HnswInner.sound_build_inner Sample.sequential sized
  have start_ : Run Sample.hnsw backend ⟨Db.fresh,inner,[],none,[]⟩ := .start built
  have scanned := start_.step (.scan rfl)
  have keeps : ∀ ids, PortWrite.insert_fact (newFact "a") ≠ .hard_delete_facts ids := by
    intro ids same
    cases same
  have written := scanned.step (.commit keeps committed)
  have swapped := written.step (.swap rfl built)
  have turn : [] ++ [notices] = [] ++ (Notice.insert 1 (newFact "a").embedding :: []) :: [] := by rw [given]
  have told := swapped.step (.notify rfl turn)
  refine ⟨_,told,of_decide_eq_true active,live_when_done Sample.sequential told ?_ 1 (of_decide_eq_true active)⟩
  exact fun queue waiting => List.mem_singleton.mp waiting

end IndexRace
end MemoryEngine
