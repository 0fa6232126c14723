import MemoryEngine.DedupApply
import Mathlib.Order.Bounds.Basic

/-! The scores that a dedup plan hands on. The scan goes pair by pair over a map of running
scores; what holds at every point is that each fact has the greatest score among itself
and all that was folded into it so far. -/

namespace MemoryEngine.MergeLog

variable {α : Type}

/-- A new entry lengthens just the chains that lead to the item it folds away. -/
theorem reaches_append {log : List (α × α)} {a b x y : α} (apart : a ≠ b) (kept : b ∉ folded log) :
    Relation.ReflTransGen (Into (log ++ [(a,b)])) x y ↔
      Relation.ReflTransGen (Into log) x y ∨ Relation.ReflTransGen (Into log) x a ∧ y = b := by
  constructor
  · intro chain
    induction chain with
    | refl => exact .inl .refl
    | tail _ into ih =>
      rename_i middle last
      rcases List.mem_append.mp into with old | new
      · rcases ih with before | ⟨_,same⟩
        · exact .inl (before.tail old)
        · rw [same] at old
          exact absurd (List.mem_map_of_mem old) kept
      · obtain ⟨rfl,rfl⟩ := Prod.mk.inj (List.mem_singleton.mp new)
        rcases ih with before | ⟨_,same⟩
        · exact .inr ⟨before,rfl⟩
        · exact absurd same apart
  · have more {u v : α} (chain : Relation.ReflTransGen (Into log) u v) : Relation.ReflTransGen (Into (log ++ [(a,b)])) u v :=
      Relation.ReflTransGen.mono (fun _ _ into => List.mem_append_left _ into) _ _ chain
    rintro (before | ⟨before,rfl⟩)
    · exact more before
    · exact (more before).tail (List.mem_append_right _ (List.mem_singleton.mpr rfl))

end MemoryEngine.MergeLog

namespace MemoryEngine
open Time KeyedTable Transaction MergeLog Consolidate

namespace Dedup

/-- The scores of a fact and of all that was folded into it. -/
def mergedScores (facts : List Fact) (expirations : List Expiry) (f : Fact) : Set SqlReal :=
  {x | ∃ g ∈ facts, Relation.ReflTransGen (Into (merges expirations)) g.id f.id ∧ g.importance_score = x}

/-- The score that the map has for a fact, else its own. -/
def running (scores : List (FactId × SqlReal)) (f : Fact) : SqlReal := (scores.lookup f.id).getD f.importance_score

theorem lookup_putScore (id other : FactId) (score : SqlReal) (scores : List (FactId × SqlReal)) :
    (putScore id score scores).lookup other = if other = id then some score else scores.lookup other := by
  induction scores with
  | nil =>
    by_cases here : other = id
    · simp [putScore,here]
    · simp [putScore,here]
  | cons entry rest ih =>
    obtain ⟨id',score'⟩ := entry
    by_cases same : id' = id
    · subst same
      by_cases here : other = id'
      · simp [putScore,here]
      · have away : (other == id') = false := by simpa using here
        simp [putScore,here,List.lookup_cons,away]
    · rw [putScore,if_neg same,List.lookup_cons,List.lookup_cons,ih]
      by_cases here : other = id'
      · have away : other ≠ id := fun equal => same (here.symm.trans equal)
        simp [here,same]
      · have away : (other == id') = false := by simpa using here
        simp [away]

theorem keys_putScore (id : FactId) (score : SqlReal) (scores : List (FactId × SqlReal)) (key : FactId) :
    key ∈ (putScore id score scores).map Prod.fst ↔ key = id ∨ key ∈ scores.map Prod.fst := by
  induction scores with
  | nil => simp [putScore]
  | cons entry rest ih =>
    obtain ⟨id',score'⟩ := entry
    by_cases same : id' = id
    · simp [putScore,same]
    · rw [putScore,if_neg same,List.map_cons,List.mem_cons,ih,List.map_cons,List.mem_cons]
      tauto

theorem nodup_putScore {id : FactId} {score : SqlReal} {scores : List (FactId × SqlReal)} (distinct : (scores.map Prod.fst).Nodup) :
    ((putScore id score scores).map Prod.fst).Nodup := by
  induction scores with
  | nil => simp [putScore]
  | cons entry rest ih =>
    obtain ⟨id',score'⟩ := entry
    obtain ⟨away,others⟩ := List.nodup_cons.mp distinct
    by_cases same : id' = id
    · rw [putScore,if_pos same]
      subst same
      exact List.nodup_cons.mpr ⟨away,others⟩
    · rw [putScore,if_neg same]
      refine List.nodup_cons.mpr ⟨fun listed => ?_,ih others⟩
      rcases (keys_putScore id score rest id').mp listed with equal | present
      · exact same equal
      · exact away present

/-- What holds of the scores at every point of the scan. -/
structure Scored (facts : List Fact) (scan : Scan) : Prop where
  distinct : (scan.running_scores.map Prod.fst).Nodup
  merged : ∀ id ∈ scan.running_scores.map Prod.fst, ∃ e ∈ scan.expirations, e.survivor = id
  best : ∀ f ∈ facts, IsGreatest (mergedScores facts scan.expirations f) (running scan.running_scores f)

theorem Scored.start {facts : List Fact} (ids : (facts.map Fact.id).Nodup) : Scored facts {} where
  distinct := List.nodup_nil
  merged := fun _ listed => absurd listed List.not_mem_nil
  best := by
    intro f member
    have alone : ∀ {x : FactId}, Relation.ReflTransGen (Into (merges [])) x f.id → x = f.id := by
      intro x chain
      rcases Relation.ReflTransGen.cases_tail chain with same | ⟨_,_,into⟩
      · exact same.symm
      · exact absurd into List.not_mem_nil
    refine ⟨⟨f,member,.refl,rfl⟩,?_⟩
    rintro _ ⟨g,among,chain,rfl⟩
    rw [List.inj_on_of_nodup_map ids among member (alone chain)]
    exact le_refl _

/-- One fold of the scan. -/
def foldScan (survivor loser : Fact) (scan : Scan) : Scan :=
  inherit_max_importance survivor loser { scan with
    expired_ids := loser.id :: scan.expired_ids
    expirations := scan.expirations ++ [⟨loser.id,survivor.id⟩] }

theorem running_foldScan (survivor loser : Fact) (scan : Scan) (f : Fact) (same : f.id = survivor.id → f = survivor) :
    running (foldScan survivor loser scan).running_scores f =
      if f.id = survivor.id then max (running scan.running_scores survivor) (running scan.running_scores loser)
      else running scan.running_scores f := by
  by_cases higher : running scan.running_scores loser > running scan.running_scores survivor
  · have put : (foldScan survivor loser scan).running_scores = putScore survivor.id (running scan.running_scores loser) scan.running_scores :=
      if_pos higher
    rw [put,running,lookup_putScore]
    by_cases here : f.id = survivor.id
    · rw [if_pos here,if_pos here,max_eq_right (le_of_lt higher)]
      rfl
    · rw [if_neg here,if_neg here]
      rfl
  · have kept : (foldScan survivor loser scan).running_scores = scan.running_scores := if_neg higher
    rw [kept]
    by_cases here : f.id = survivor.id
    · rw [if_pos here,max_eq_left (not_lt.mp higher),same here]
    · rw [if_neg here]

theorem Scored.fold {facts : List Fact} {scan : Scan} {loser survivor : Fact} (ids : (facts.map Fact.id).Nodup) (sound : Sound facts scan)
    (scored : Scored facts scan) (left : loser ∈ facts) (right : survivor ∈ facts) (apart : loser.id ≠ survivor.id)
    (fresh : survivor.id ∉ scan.expired_ids) : Scored facts (foldScan survivor loser scan) := by
  have kept : survivor.id ∉ folded (merges scan.expirations) := fun listed => fresh ((sound.expired _).mpr listed)
  have log : merges (foldScan survivor loser scan).expirations = merges scan.expirations ++ [(loser.id,survivor.id)] := by
    simp [foldScan,inherit_max_importance,merges]
  have scores : (foldScan survivor loser scan).running_scores = scan.running_scores ∨
      ∃ score, (foldScan survivor loser scan).running_scores = putScore survivor.id score scan.running_scores := by
    by_cases higher : running scan.running_scores loser > running scan.running_scores survivor
    · exact .inr ⟨_,if_pos higher⟩
    · exact .inl (if_neg higher)
  constructor
  case distinct =>
    rcases scores with same | ⟨score,put⟩
    · rw [same]
      exact scored.distinct
    · rw [put]
      exact nodup_putScore scored.distinct
  case merged =>
    intro id listed
    have old : id ∈ scan.running_scores.map Prod.fst → ∃ e ∈ (foldScan survivor loser scan).expirations, e.survivor = id := by
      intro before
      obtain ⟨e,planned,same⟩ := scored.merged id before
      exact ⟨e,List.mem_append_left _ planned,same⟩
    rcases scores with same | ⟨score,put⟩
    · rw [same] at listed
      exact old listed
    · rw [put,keys_putScore] at listed
      rcases listed with rfl | before
      · exact ⟨⟨loser.id,survivor.id⟩,List.mem_append_right _ (List.mem_singleton.mpr rfl),rfl⟩
      · exact old before
  case best =>
    intro f member
    have unique : f.id = survivor.id → f = survivor := List.inj_on_of_nodup_map ids member right
    rw [running_foldScan survivor loser scan f unique]
    by_cases here : f.id = survivor.id
    · obtain rfl := unique here
      rw [if_pos rfl]
      have both : mergedScores facts (foldScan f loser scan).expirations f =
          mergedScores facts scan.expirations f ∪ mergedScores facts scan.expirations loser := by
        ext x
        simp only [mergedScores,log,reaches_append apart kept,Set.mem_ofPred_eq,Set.mem_union]
        constructor
        · rintro ⟨g,among,before | ⟨before,_⟩,same⟩
          · exact .inl ⟨g,among,before,same⟩
          · exact .inr ⟨g,among,before,same⟩
        · rintro (⟨g,among,before,same⟩ | ⟨g,among,before,same⟩)
          · exact ⟨g,among,.inl before,same⟩
          · exact ⟨g,among,.inr ⟨before,trivial⟩,same⟩
      rw [both]
      exact (scored.best f right).union (scored.best loser left)
    · rw [if_neg here]
      have same : mergedScores facts (foldScan survivor loser scan).expirations f = mergedScores facts scan.expirations f := by
        ext x
        simp only [mergedScores,log,reaches_append apart kept,Set.mem_ofPred_eq,here,and_false,or_false]
      rw [same]
      exact scored.best f member

variable {similarity : Embedding → Embedding → F32} {threshold : F32}

/-- Folding one fact of a pair, whichever it is. -/
theorem scored_mergePair {facts : List Fact} {scan : Scan} {new_fact candidate : Fact} (ids : (facts.map Fact.id).Nodup)
    (sound : Sound facts scan) (scored : Scored facts scan) (left : new_fact ∈ facts) (right : candidate ∈ facts)
    (apart : candidate.id ≠ new_fact.id) (fresh : new_fact.id ∉ scan.expired_ids) (fresh' : candidate.id ∉ scan.expired_ids)
    {expire_id : FactId} (chosen : expire_id = new_fact.id ∨ expire_id = candidate.id) :
    Scored facts (mergePair new_fact candidate expire_id scan) := by
  by_cases itself : expire_id = new_fact.id
  · have folded_ : mergePair new_fact candidate expire_id scan = foldScan candidate new_fact scan := by
      rw [mergePair,if_pos itself,itself]
      rfl
    rw [folded_]
    exact scored.fold ids sound left right apart.symm fresh'
  · have other : expire_id = candidate.id := chosen.resolve_left itself
    have folded_ : mergePair new_fact candidate expire_id scan = foldScan new_fact candidate scan := by
      rw [mergePair,if_neg itself,other]
      rfl
    rw [folded_]
    exact scored.fold ids sound right left apart fresh

theorem chosen_expiry (a b : Fact) : choose_expiry a.base_importance a.id b.base_importance b.id = a.id ∨
    choose_expiry a.base_importance a.id b.base_importance b.id = b.id := by
  rcases choose_expiry_cases a b with ⟨same,_⟩ | ⟨same,_⟩
  · exact .inl same
  · exact .inr same

theorem scored_scanCandidates {facts candidates : List Fact} {scan : Scan} {new_fact : Fact} (ids : (facts.map Fact.id).Nodup)
    (sound : Sound facts scan) (scored : Scored facts scan) (left : new_fact ∈ facts) (sub : candidates ⊆ facts)
    (fresh : new_fact.id ∉ scan.expired_ids) (free : new_fact.is_pinned = false) :
    Scored facts (scanCandidates similarity threshold new_fact candidates scan) := by
  induction candidates generalizing scan with
  | nil => exact scored
  | cons candidate rest ih =>
    obtain ⟨right,subRest⟩ := List.cons_subset.mp sub
    unfold scanCandidates
    by_cases skip : candidate.id = new_fact.id ∨ candidate.id ∈ scan.expired_ids ∨ candidate.is_pinned = true
    · rw [if_pos skip]
      exact ih sound scored subRest fresh
    · rw [if_neg skip]
      obtain ⟨apart,fresh',free'⟩ : candidate.id ≠ new_fact.id ∧ candidate.id ∉ scan.expired_ids ∧ candidate.is_pinned = false := by
        simpa only [not_or,Bool.not_eq_true] using skip
      by_cases alike : duplicates similarity threshold new_fact candidate = true
      · rw [if_pos alike]
        have chosen := chosen_expiry new_fact candidate
        obtain ⟨merged,expired⟩ := sound_mergePair sound left right apart fresh fresh' free free' rfl
        have merged' := scored_mergePair ids sound scored left right apart fresh fresh' chosen
        by_cases itself : choose_expiry new_fact.base_importance new_fact.id candidate.base_importance candidate.id = new_fact.id
        · simp only [if_pos itself]
          exact merged'
        · simp only [if_neg itself]
          refine ih merged merged' subRest ?_
          rw [expired,chosen.resolve_left itself]
          exact fun listed => (List.mem_cons.mp listed).elim (fun same => apart same.symm) fresh
      · rw [if_neg alike]
        exact ih sound scored subRest fresh

variable (similarity threshold) in
theorem scored_scanFacts {facts news : List Fact} {scan : Scan} (ids : (facts.map Fact.id).Nodup) (sound : Sound facts scan)
    (scored : Scored facts scan) (sub : news ⊆ facts) : Scored facts (news.foldl (scanFact similarity threshold facts) scan) := by
  induction news generalizing scan with
  | nil => exact scored
  | cons f rest ih =>
    obtain ⟨left,subRest⟩ := List.cons_subset.mp sub
    refine ih (scanFact_spec similarity threshold sound left).1 ?_ subRest
    unfold scanFact
    by_cases skip : f.id ∈ scan.expired_ids ∨ f.is_pinned = true
    · rw [if_pos skip]
      exact scored
    · rw [if_neg skip]
      obtain ⟨fresh,free⟩ := not_or.mp skip
      exact scored_scanCandidates ids sound scored left (List.Subset.refl _) fresh (by simpa using free)

/-- The score that a plan writes for a fact, else the one of the snapshot. -/
def planned_score (computed : DedupComputed) (f : Fact) : F64 :=
  (computed.importance_score_updates.lookup f.id).getD (.num f.importance_score)

theorem lookup_numbers (scores : List (FactId × SqlReal)) (id : FactId) :
    (scores.map fun entry => (entry.1,F64.num entry.2)).lookup id = (scores.lookup id).map F64.num := by
  induction scores with
  | nil => rfl
  | cons entry rest ih =>
    rw [List.map_cons,List.lookup_cons,List.lookup_cons,ih]
    cases id == entry.1 <;> rfl

variable (similarity threshold) in
/-- What holds of the scores of a plan. -/
theorem compute_dedup_scored {facts : List Fact} (ids : (facts.map Fact.id).Nodup) (max_facts : Nat) (since : Option DateTime) :
    ((compute_dedup similarity threshold facts max_facts since).importance_score_updates.map Prod.fst).Nodup ∧
    (∀ id ∈ (compute_dedup similarity threshold facts max_facts since).importance_score_updates.map Prod.fst,
      ∃ e ∈ (compute_dedup similarity threshold facts max_facts since).expirations, e.survivor = id) ∧
    ∀ f ∈ facts, ∃ score, planned_score (compute_dedup similarity threshold facts max_facts since) f = .num score ∧
      IsGreatest (mergedScores facts (compute_dedup similarity threshold facts max_facts since).expirations f) score := by
  unfold compute_dedup
  by_cases large : facts.length > max_facts
  · rw [if_pos large]
    exact ⟨List.nodup_nil,fun _ listed => absurd listed List.not_mem_nil,fun f member => ⟨_,rfl,(Scored.start ids).best f member⟩⟩
  · rw [if_neg large]
    obtain ⟨distinct,merged,best⟩ := scored_scanFacts similarity threshold ids (Sound.start facts) (Scored.start ids) (drivers_subset facts since)
    have keys : ∀ scores : List (FactId × SqlReal), (scores.map fun entry => (entry.1,F64.num entry.2)).map Prod.fst = scores.map Prod.fst := by
      intro scores
      rw [List.map_map]
      rfl
    simp only [keys]
    refine ⟨distinct,merged,fun f member => ⟨_,?_,best f member⟩⟩
    rw [planned_score,lookup_numbers,running]
    cases (List.lookup f.id _) <;> rfl

/-! ## The store -/

variable {self : SqliteBackend}

theorem find_last_eq {scores : List (FactId × F64)} (distinct : (scores.map Prod.fst).Nodup) (id : FactId) :
    (scores.reverse.find? fun entry => entry.1 == id) = (scores.lookup id).map fun score => (id,score) := by
  induction scores with
  | nil => rfl
  | cons entry rest ih =>
    obtain ⟨id',score⟩ := entry
    obtain ⟨away,others⟩ := List.nodup_cons.mp distinct
    rw [List.reverse_cons,List.find?_append,ih others,List.lookup_cons]
    by_cases here : id = id'
    · subst here
      have absent : rest.lookup id = none := by
        rw [List.lookup_eq_none_iff]
        intro entry listed
        simpa using fun same => away (List.mem_map.mpr ⟨entry,listed,same.symm⟩)
      simp [absent]
    · have other : (id' == id) = false := by simpa using fun same => here same.symm
      have other' : (id == id') = false := by simpa using here
      simp [other,other']

/-- The bulk write gives each fact its planned score. -/
theorem setScore_planned {computed : DedupComputed} (distinct : (computed.importance_score_updates.map Prod.fst).Nodup) {f : Fact} {score : SqlReal}
    (planned : planned_score computed f = .num score) :
    FactStore.setScore computed.importance_score_updates f = { f with importance_score := score } := by
  rw [FactStore.setScore,find_last_eq distinct]
  unfold planned_score at planned
  cases written : computed.importance_score_updates.lookup f.id with
  | none =>
    rw [written] at planned
    obtain rfl := F64.num.inj planned
    rfl
  | some value =>
    rw [written] at planned
    obtain rfl : value = .num score := planned
    rfl

/-- Every row stays, and those of other ids stay as they are. -/
def RowsKept (ids : List FactId) (s t : Db) : Prop :=
  ∀ f ∈ s.facts.rows, ∃ f' ∈ t.facts.rows, f'.id = f.id ∧ (f.id ∉ ids → f' = f)

theorem RowsKept.same {ids : List FactId} {s t : Db} (facts : t.facts = s.facts) : RowsKept ids s t := by
  intro f member
  exact ⟨f,by rw [facts]; exact member,rfl,fun _ => rfl⟩

theorem RowsKept.trans {ids : List FactId} {s m t : Db} (first : RowsKept ids s m) (second : RowsKept ids m t) : RowsKept ids s t := by
  intro f member
  obtain ⟨g,held,same,kept⟩ := first f member
  obtain ⟨h,there,same',kept'⟩ := second g held
  refine ⟨h,there,same'.trans same,fun away => ?_⟩
  rw [kept' (by rw [same]; exact away),kept away]

theorem rowsKept_applyExpiry {survivor_live : FactId → Bool} {now : DateTime} {acc acc' : DedupApplied} {e : Expiry} {ids : List FactId}
    (among : e.loser ∈ ids) {s t : Db} (committed : Commits (applyExpiry survivor_live now acc e) s acc' t) : RowsKept ids s t := by
  unfold applyExpiry at committed
  split at committed
  · obtain ⟨r,m,attempted,rest⟩ := commits_bind.mp committed
    rcases commits_attempt.mp attempted with ⟨_,rfl,expired⟩ | ⟨err,rfl,_,rfl⟩
    · obtain ⟨n,m',cascaded,last⟩ := commits_bind.mp rest
      obtain ⟨rfl,rfl⟩ := commits_pure.mp last
      have edges : t.facts = m.facts := by
        rw [(EdgeStore.commits_expire_by_fact.mp cascaded).2]
        rfl
      obtain ⟨_,written⟩ := FactStore.commits_updateActive.mp expired
      have moved : RowsKept ids s m := by
        intro f member
        refine ⟨if (f.id == e.loser && f.t_expired.isNone) = true then { f with t_expired := some now } else f,?_,?_,fun away => ?_⟩
        · rw [written,Table.mem_update]
          exact ⟨f,member,rfl⟩
        · split <;> rfl
        · have other : (f.id == e.loser) = false := by simpa using fun same : f.id = e.loser => away (same ▸ among)
          rw [other]
          rfl
      exact moved.trans (.same edges)
    · cases err with
      | NotFound what =>
        obtain ⟨rfl,rfl⟩ := commits_pure.mp rest
        exact .same rfl
      | _ => exact absurd rest commits_throw
  · obtain ⟨rfl,rfl⟩ := commits_pure.mp committed
    exact .same rfl

theorem rowsKept_expirations {survivor_live : FactId → Bool} {now : DateTime} {expirations : List Expiry} {acc acc' : DedupApplied}
    {ids : List FactId} (among : ∀ e ∈ expirations, e.loser ∈ ids) {s t : Db}
    (committed : Commits (expirations.foldlM (applyExpiry survivor_live now) acc) s acc' t) : RowsKept ids s t := by
  induction expirations generalizing acc s with
  | nil =>
    obtain ⟨rfl,rfl⟩ := commits_pure.mp committed
    exact .same rfl
  | cons e rest ih =>
    obtain ⟨here,later⟩ := List.forall_mem_cons.mp among
    rw [List.foldlM_cons] at committed
    obtain ⟨next,m,first,tail⟩ := commits_bind.mp committed
    exact (rowsKept_applyExpiry here first).trans (ih later tail)

/-- What a plan that rewrites no base importance makes of a row: its score is the one planned,
    and nothing else changes but for the losers. -/
theorem row_apply_dedup {computed : DedupComputed} {now : DateTime} {applied : DedupApplied} {s t : Db} (updates : computed.importance_updates = [])
    (committed : Commits (apply_dedup self computed now) s applied t) {f : Fact} (member : f ∈ s.facts.rows) (kept : f.id ∉ computed.losers) :
    FactStore.setScore computed.importance_score_updates f ∈ t.facts.rows := by
  unfold apply_dedup at committed
  rw [updates] at committed
  obtain ⟨_,m₁,inherited,rest⟩ := commits_bind.mp committed
  obtain ⟨_,m₂,materialized,rest⟩ := commits_bind.mp rest
  obtain ⟨live,m₃,looked,loop⟩ := commits_bind.mp rest
  obtain ⟨_,rfl⟩ := commits_pure.mp inherited
  obtain ⟨rfl,rfl⟩ := commits_query.mp looked
  have scored : FactStore.setScore computed.importance_score_updates f ∈ m₃.facts.rows := by
    unfold FactStore.update_importance_scores_bulk at materialized
    split at materialized
    · exact absurd materialized commits_throw
    · rw [commits_execute.mp materialized,Table.mem_update]
      exact ⟨f,member,rfl⟩
  obtain ⟨f',there,_,same⟩ := rowsKept_expirations (fun e listed => List.mem_map_of_mem listed) loop _ scored
  have away : (FactStore.setScore computed.importance_score_updates f).id ∉ computed.losers := by
    rw [FactStore.setScore_id]
    exact kept
  rwa [same away] at there

end Dedup

/-- With no writer in between, each fact that the plan keeps ends up with the greatest score
    among itself and all that was folded into it, and a fact in no merge stays as it is. -/
theorem apply_dedup_inherits {self : SqliteBackend} {similarity : Embedding → Embedding → F32} {threshold : F32} {max_facts : Nat}
    {since : Option DateTime} {now : DateTime} {applied : DedupApplied} {s t : Db}
    (committed : Commits (Consolidate.apply_dedup self (Dedup.compute_dedup similarity threshold s.activeFacts max_facts since) now) s applied t) :
    (∀ f ∈ s.activeFacts, f.id ∉ (Dedup.compute_dedup similarity threshold s.activeFacts max_facts since).losers →
      ∃ f' ∈ t.facts.rows, f'.id = f.id ∧ f'.t_expired = none ∧
        Dedup.planned_score (Dedup.compute_dedup similarity threshold s.activeFacts max_facts since) f = .num f'.importance_score ∧
        IsGreatest (Dedup.mergedScores s.activeFacts (Dedup.compute_dedup similarity threshold s.activeFacts max_facts since).expirations f)
          f'.importance_score) ∧
    ∀ f ∈ s.facts.rows, (∀ e ∈ (Dedup.compute_dedup similarity threshold s.activeFacts max_facts since).expirations, e.loser ≠ f.id ∧ e.survivor ≠ f.id) →
      f ∈ t.facts.rows := by
  obtain ⟨planned,_⟩ := Dedup.compute_dedup_spec similarity threshold s.activeFacts max_facts since
  have ids : (s.activeFacts.map Fact.id).Nodup := active_facts_distinct s
  obtain ⟨distinct,merged,best⟩ := Dedup.compute_dedup_scored similarity threshold ids max_facts since
  constructor
  · intro f listed kept
    obtain ⟨member,active⟩ := List.mem_filter.mp listed
    obtain ⟨score,written,greatest⟩ := best f listed
    have row := Dedup.row_apply_dedup planned.updates committed member kept
    rw [Dedup.setScore_planned distinct written] at row
    exact ⟨_,row,rfl,Option.isNone_iff_eq_none.mp active,written,greatest⟩
  · intro f member apart
    have kept : f.id ∉ (Dedup.compute_dedup similarity threshold s.activeFacts max_facts since).losers := by
      intro listed
      obtain ⟨e,planned_,same⟩ := List.mem_map.mp listed
      exact (apart e planned_).1 same
    have row := Dedup.row_apply_dedup planned.updates committed member kept
    have unwritten : Dedup.planned_score (Dedup.compute_dedup similarity threshold s.activeFacts max_facts since) f = .num f.importance_score := by
      have absent : (Dedup.compute_dedup similarity threshold s.activeFacts max_facts since).importance_score_updates.lookup f.id = none := by
        rw [List.lookup_eq_none_iff]
        intro entry listed
        have away : entry.1 ≠ f.id := by
          intro same
          obtain ⟨e,planned_,survivor⟩ := merged entry.1 (List.mem_map_of_mem listed)
          exact (apart e planned_).2 (survivor.trans same)
        simpa using fun same => away same.symm
      rw [Dedup.planned_score,absent]
      rfl
    rwa [Dedup.setScore_planned distinct unwritten] at row

/-- The three alike facts of the sample store end up as one. -/
theorem apply_dedup_inherits_sample : ∃ applied t,
    Commits (Consolidate.apply_dedup Sample.backend Sample.dedupPlan Sample.moment) Sample.engine.storage applied t ∧
      ∀ f ∈ Sample.engine.storage.activeFacts, f.id ∉ Sample.dedupPlan.losers → ∃ f' ∈ t.facts.rows, f'.id = f.id ∧
        IsGreatest (Dedup.mergedScores Sample.engine.storage.activeFacts Sample.dedupPlan.expirations f) f'.importance_score := by
  have ends : Ends (Consolidate.apply_dedup Sample.backend Sample.dedupPlan Sample.moment) Sample.engine.storage
      (fun applied _ => applied.expired == [2,3]) = true := by decide +kernel
  obtain ⟨applied,t,committed,_⟩ := commits_of_ends ends
  refine ⟨applied,t,committed,fun f listed kept => ?_⟩
  obtain ⟨f',row,same,_,_,greatest⟩ := (apply_dedup_inherits committed).1 f listed kept
  exact ⟨f',row,same,greatest⟩

end MemoryEngine
