import MemoryEngine.Consolidate
import MemoryEngine.MergeLog
import MemoryEngine.Floats

/-! The dedup plan. A scan over pairs of facts folds the less important fact of
each duplicate pair into the other one and never looks at a folded fact again, so
the plan is an ordered log of merges. -/

namespace MemoryEngine
open Time KeyedTable MergeLog Rounding

/-- The bits of 1e-6. -/
def DEDUP_SIMILARITY_EPSILON : F32 := 0x358637BD

/-- The first id was folded into the second. -/
def DedupComputed.MergedInto (computed : DedupComputed) (loser survivor : FactId) : Prop :=
  ⟨loser,survivor⟩ ∈ computed.expirations

def DedupComputed.losers (computed : DedupComputed) : List FactId := computed.expirations.map Expiry.loser

/-- The base importance a fact has once the plan's updates are written. -/
def DedupComputed.inherited (computed : DedupComputed) (f : Fact) : F64 :=
  (computed.importance_updates.reverse.lookup f.id).getD (.num f.base_importance)

namespace Dedup

/-- The accumulators of the scan. -/
structure Scan where
  expired_ids : List FactId := []
  expirations : List Expiry := []
  importance_updates : List (FactId × F64) := []
  running_scores : List (FactId × SqlReal) := []

def choose_expiry (a_importance : SqlReal) (a_id : FactId) (b_importance : SqlReal) (b_id : FactId) : FactId :=
  if a_importance < b_importance then a_id else
  if a_importance > b_importance then b_id else max a_id b_id

/-- Insert into the map of scores, replacing the score of an equal id. -/
def putScore (id : FactId) (score : SqlReal) : List (FactId × SqlReal) → List (FactId × SqlReal)
  | [] => [(id,score)]
  | (id',score') :: rest => if id' = id then (id,score) :: rest else (id',score') :: putScore id score rest

def inherit_max_importance (survivor loser : Fact) (scan : Scan) : Scan :=
  let importance_updates := if loser.base_importance > survivor.base_importance
    then scan.importance_updates ++ [(survivor.id,.num loser.base_importance)] else scan.importance_updates
  let survivor_score := (scan.running_scores.lookup survivor.id).getD survivor.importance_score
  let loser_score := (scan.running_scores.lookup loser.id).getD loser.importance_score
  let running_scores := if loser_score > survivor_score
    then putScore survivor.id loser_score scan.running_scores else scan.running_scores
  { scan with importance_updates := importance_updates, running_scores := running_scores }

variable (similarity : Embedding → Embedding → F32) (threshold : F32)

/-- At least as similar as the threshold less the tolerance. -/
def duplicates (a b : Fact) : Bool :=
  ((F32.datum threshold).sub binary32 (F32.datum DEDUP_SIMILARITY_EPSILON)).le (F32.datum (similarity a.embedding b.embedding))

/-- Fold the fact with this id, one of the pair, into the other one. -/
def mergePair (new_fact candidate : Fact) (expire_id : FactId) (scan : Scan) : Scan :=
  let (survivor,loser) := if expire_id = new_fact.id then (candidate,new_fact) else (new_fact,candidate)
  inherit_max_importance survivor loser { scan with
    expired_ids := expire_id :: scan.expired_ids
    expirations := scan.expirations ++ [⟨expire_id,survivor.id⟩] }

/-- Compare one fact with the candidates, until it is expired itself. -/
def scanCandidates (new_fact : Fact) : List Fact → Scan → Scan
  | [],scan => scan
  | candidate :: rest,scan =>
    if candidate.id = new_fact.id ∨ candidate.id ∈ scan.expired_ids ∨ candidate.is_pinned = true then
      scanCandidates new_fact rest scan
    else if duplicates similarity threshold new_fact candidate = true then
      let expire_id := choose_expiry new_fact.base_importance new_fact.id candidate.base_importance candidate.id
      let scan := mergePair new_fact candidate expire_id scan
      if expire_id = new_fact.id then scan else scanCandidates new_fact rest scan
    else scanCandidates new_fact rest scan

def scanFact (active_facts : List Fact) (scan : Scan) (new_fact : Fact) : Scan :=
  if new_fact.id ∈ scan.expired_ids ∨ new_fact.is_pinned = true then scan
  else scanCandidates similarity threshold new_fact active_facts scan

/-- The facts that drive comparisons: those created after the watermark. -/
def drivers (active_facts : List Fact) : Option DateTime → List Fact
  | none => active_facts
  | some since_dt => active_facts.filter (fun f => f.t_created > since_dt)

def compute_dedup (active_facts : List Fact) (max_facts : Nat) (since : Option DateTime) : DedupComputed :=
  if active_facts.length > max_facts then ⟨true,[],[],[]⟩
  else
    let scan := (drivers active_facts since).foldl (scanFact similarity threshold active_facts) {}
    ⟨false,scan.expirations,scan.importance_updates,scan.running_scores.map fun entry => (entry.1,.num entry.2)⟩

/-- The merges of a plan. -/
def merges (expirations : List Expiry) : List (FactId × FactId) := expirations.map fun e => (e.loser,e.survivor)

theorem mem_merges {expirations : List Expiry} {a b : FactId} : (a,b) ∈ merges expirations ↔ ⟨a,b⟩ ∈ expirations := by
  simp only [merges,List.mem_map,Prod.mk.injEq]
  constructor
  · rintro ⟨⟨_,_⟩,listed,rfl,rfl⟩
    exact listed
  · intro listed
    exact ⟨⟨a,b⟩,listed,rfl,rfl⟩

theorem folded_merges (expirations : List Expiry) : folded (merges expirations) = expirations.map Expiry.loser := by
  simp [folded,merges,Function.comp_def]

/-- What holds of the scan at every point. -/
structure Sound (facts : List Fact) (scan : Scan) : Prop where
  ordered : Ordered (merges scan.expirations)
  expired : ∀ id, id ∈ scan.expired_ids ↔ id ∈ folded (merges scan.expirations)
  origin : ∀ e ∈ scan.expirations, ∃ loser ∈ facts, ∃ survivor ∈ facts, loser.id = e.loser ∧ survivor.id = e.survivor ∧
    loser.is_pinned = false ∧ survivor.is_pinned = false ∧ loser.base_importance ≤ survivor.base_importance
  updates : scan.importance_updates = []

theorem Sound.start (facts : List Fact) : Sound facts {} := ⟨Ordered.nil,by simp [folded,merges],by simp,rfl⟩

/-- The expired fact of a pair is one of the two, and the less important one. -/
theorem choose_expiry_cases (a b : Fact) :
    (choose_expiry a.base_importance a.id b.base_importance b.id = a.id ∧ a.base_importance ≤ b.base_importance) ∨
      (choose_expiry a.base_importance a.id b.base_importance b.id = b.id ∧ b.base_importance ≤ a.base_importance) := by
  unfold choose_expiry
  by_cases less : a.base_importance < b.base_importance
  · rw [if_pos less]
    exact .inl ⟨rfl,less.le⟩
  · rw [if_neg less]
    by_cases more : a.base_importance > b.base_importance
    · rw [if_pos more]
      exact .inr ⟨rfl,more.le⟩
    · rw [if_neg more]
      rcases max_choice a.id b.id with first | second
      · exact .inl ⟨first,not_lt.mp more⟩
      · exact .inr ⟨second,not_lt.mp less⟩

theorem Sound.fold {facts : List Fact} {scan : Scan} {loser survivor : Fact} (sound : Sound facts scan) (left : loser ∈ facts)
    (right : survivor ∈ facts) (apart : loser.id ≠ survivor.id) (fresh : loser.id ∉ scan.expired_ids)
    (fresh' : survivor.id ∉ scan.expired_ids) (free : loser.is_pinned = false) (free' : survivor.is_pinned = false)
    (less : loser.base_importance ≤ survivor.base_importance) :
    Sound facts (inherit_max_importance survivor loser { scan with
      expired_ids := loser.id :: scan.expired_ids
      expirations := scan.expirations ++ [⟨loser.id,survivor.id⟩] }) where
  ordered := by
    have grown := sound.ordered.append apart (fun listed => fresh ((sound.expired _).mpr listed))
      (fun listed => fresh' ((sound.expired _).mpr listed))
    simpa [inherit_max_importance,merges] using grown
  expired := by
    intro id
    have before := sound.expired id
    simp only [inherit_max_importance,folded_merges,List.mem_cons,List.map_append,List.mem_append,List.map_cons,List.map_nil,
      List.not_mem_nil,or_false] at before ⊢
    rw [before,or_comm]
  origin := by
    intro e listed
    rcases List.mem_append.mp listed with old | new
    · exact sound.origin e old
    · rw [List.mem_singleton.mp new]
      exact ⟨loser,left,survivor,right,rfl,rfl,free,free',less⟩
  updates := by
    simp only [inherit_max_importance,if_neg (not_lt.mpr less)]
    exact sound.updates

/-- Folding one fact of a pair keeps the scan sound and expires that fact. -/
theorem sound_mergePair {facts : List Fact} {scan : Scan} {new_fact candidate : Fact} (sound : Sound facts scan)
    (left : new_fact ∈ facts) (right : candidate ∈ facts) (apart : candidate.id ≠ new_fact.id)
    (fresh : new_fact.id ∉ scan.expired_ids) (fresh' : candidate.id ∉ scan.expired_ids) (free : new_fact.is_pinned = false)
    (free' : candidate.is_pinned = false) {expire_id : FactId}
    (chosen : expire_id = choose_expiry new_fact.base_importance new_fact.id candidate.base_importance candidate.id) :
    Sound facts (mergePair new_fact candidate expire_id scan) ∧
      (mergePair new_fact candidate expire_id scan).expired_ids = expire_id :: scan.expired_ids := by
  refine ⟨?_,rfl⟩
  rcases choose_expiry_cases new_fact candidate with ⟨same,less⟩ | ⟨same,less⟩
  · rw [chosen,same,mergePair,if_pos rfl]
    exact sound.fold left right apart.symm fresh fresh' free free' less
  · rw [chosen,same,mergePair,if_neg apart]
    exact sound.fold right left apart fresh' fresh free' free less

/-- Nothing is left to fold the fact with among the candidates. -/
def Settled (candidates : List Fact) (expired_ids : List FactId) (f : Fact) : Prop :=
  f.id ∈ expired_ids ∨ f.is_pinned = true ∨
    ∀ g ∈ candidates, g.id = f.id ∨ g.id ∈ expired_ids ∨ g.is_pinned = true ∨ duplicates similarity threshold f g = false

variable {similarity threshold}

theorem Settled.mono {candidates : List Fact} {expired_ids expired_ids' : List FactId} {f : Fact} (grown : expired_ids ⊆ expired_ids')
    (settled : Settled similarity threshold candidates expired_ids f) : Settled similarity threshold candidates expired_ids' f := by
  rcases settled with gone | pinned | all
  · exact .inl (grown gone)
  · exact .inr (.inl pinned)
  · refine .inr (.inr fun g listed => ?_)
    rcases all g listed with same | gone | rest
    · exact .inl same
    · exact .inr (.inl (grown gone))
    · exact .inr (.inr rest)

/-- A candidate that is settled itself can be put in front. -/
theorem Settled.cons {candidate : Fact} {candidates : List Fact} {expired_ids : List FactId} {f : Fact}
    (first : candidate.id = f.id ∨ candidate.id ∈ expired_ids ∨ candidate.is_pinned = true ∨
      duplicates similarity threshold f candidate = false)
    (settled : Settled similarity threshold candidates expired_ids f) :
    Settled similarity threshold (candidate :: candidates) expired_ids f := by
  rcases settled with gone | pinned | all
  · exact .inl gone
  · exact .inr (.inl pinned)
  · exact .inr (.inr (List.forall_mem_cons.mpr ⟨first,all⟩))

theorem scanCandidates_spec {facts candidates : List Fact} {scan : Scan} {new_fact : Fact} (sound : Sound facts scan)
    (left : new_fact ∈ facts) (sub : candidates ⊆ facts) (fresh : new_fact.id ∉ scan.expired_ids)
    (free : new_fact.is_pinned = false) :
    Sound facts (scanCandidates similarity threshold new_fact candidates scan) ∧
      scan.expired_ids ⊆ (scanCandidates similarity threshold new_fact candidates scan).expired_ids ∧
      Settled similarity threshold candidates (scanCandidates similarity threshold new_fact candidates scan).expired_ids new_fact := by
  induction candidates generalizing scan with
  | nil => exact ⟨sound,List.Subset.refl _,.inr (.inr (by simp))⟩
  | cons candidate rest ih =>
    obtain ⟨right,subRest⟩ := List.cons_subset.mp sub
    unfold scanCandidates
    by_cases skip : candidate.id = new_fact.id ∨ candidate.id ∈ scan.expired_ids ∨ candidate.is_pinned = true
    · rw [if_pos skip]
      obtain ⟨sound',grown,settled⟩ := ih sound subRest fresh
      refine ⟨sound',grown,settled.cons ?_⟩
      rcases skip with same | gone | pinned
      · exact .inl same
      · exact .inr (.inl (grown gone))
      · exact .inr (.inr (.inl pinned))
    · rw [if_neg skip]
      obtain ⟨apart,fresh',free'⟩ : candidate.id ≠ new_fact.id ∧ candidate.id ∉ scan.expired_ids ∧ candidate.is_pinned = false := by
        simpa only [not_or,Bool.not_eq_true] using skip
      by_cases alike : duplicates similarity threshold new_fact candidate = true
      · rw [if_pos alike]
        obtain ⟨merged,expired⟩ := sound_mergePair sound left right apart fresh fresh' free free' rfl
        by_cases itself : choose_expiry new_fact.base_importance new_fact.id candidate.base_importance candidate.id = new_fact.id
        · simp only [if_pos itself]
          rw [itself] at merged expired ⊢
          rw [expired]
          exact ⟨merged,List.subset_cons_self _ _,.inl List.mem_cons_self⟩
        · simp only [if_neg itself]
          have other : choose_expiry new_fact.base_importance new_fact.id candidate.base_importance candidate.id = candidate.id := by
            rcases choose_expiry_cases new_fact candidate with ⟨same,_⟩ | ⟨same,_⟩
            · exact absurd same itself
            · exact same
          rw [other] at merged expired ⊢
          obtain ⟨sound',grown,settled⟩ := ih merged subRest (by
            rw [expired]
            exact fun listed => (List.mem_cons.mp listed).elim (fun same => apart same.symm) fresh)
          rw [expired] at grown
          refine ⟨sound',List.Subset.trans (List.subset_cons_self _ _) grown,settled.cons ?_⟩
          exact .inr (.inl (grown List.mem_cons_self))
      · rw [if_neg alike]
        obtain ⟨sound',grown,settled⟩ := ih sound subRest fresh
        exact ⟨sound',grown,settled.cons (.inr (.inr (.inr (by simpa using alike))))⟩

variable (similarity threshold) in
theorem scanFact_spec {facts : List Fact} {scan : Scan} {new_fact : Fact} (sound : Sound facts scan) (left : new_fact ∈ facts) :
    Sound facts (scanFact similarity threshold facts scan new_fact) ∧
      scan.expired_ids ⊆ (scanFact similarity threshold facts scan new_fact).expired_ids ∧
      Settled similarity threshold facts (scanFact similarity threshold facts scan new_fact).expired_ids new_fact := by
  unfold scanFact
  by_cases skip : new_fact.id ∈ scan.expired_ids ∨ new_fact.is_pinned = true
  · rw [if_pos skip]
    refine ⟨sound,List.Subset.refl _,?_⟩
    rcases skip with gone | pinned
    · exact .inl gone
    · exact .inr (.inl pinned)
  · rw [if_neg skip]
    obtain ⟨fresh,free⟩ := not_or.mp skip
    exact scanCandidates_spec sound left (List.Subset.refl _) fresh (by simpa using free)

variable (similarity threshold) in
/-- The whole scan is sound and settles every driver. -/
theorem scanFacts_spec {facts news : List Fact} {scan : Scan} (sound : Sound facts scan) (sub : news ⊆ facts) :
    Sound facts (news.foldl (scanFact similarity threshold facts) scan) ∧
      scan.expired_ids ⊆ (news.foldl (scanFact similarity threshold facts) scan).expired_ids ∧
      ∀ f ∈ news, Settled similarity threshold facts (news.foldl (scanFact similarity threshold facts) scan).expired_ids f := by
  induction news generalizing scan with
  | nil => exact ⟨sound,List.Subset.refl _,by simp⟩
  | cons f rest ih =>
    obtain ⟨left,subRest⟩ := List.cons_subset.mp sub
    obtain ⟨one,grown,settled⟩ := scanFact_spec similarity threshold sound left
    obtain ⟨all,grown',settled'⟩ := ih one subRest
    exact ⟨all,List.Subset.trans grown grown',List.forall_mem_cons.mpr ⟨settled.mono grown',settled'⟩⟩

/-- What holds of a plan: an ordered log of merges between unpinned facts, none
    into a less important one, that rewrites no base importance. -/
structure Planned (facts : List Fact) (computed : DedupComputed) : Prop where
  ordered : Ordered (merges computed.expirations)
  origin : ∀ e ∈ computed.expirations, ∃ loser ∈ facts, ∃ survivor ∈ facts, loser.id = e.loser ∧ survivor.id = e.survivor ∧
    loser.is_pinned = false ∧ survivor.is_pinned = false ∧ loser.base_importance ≤ survivor.base_importance
  updates : computed.importance_updates = []

theorem drivers_subset (facts : List Fact) (since : Option DateTime) : drivers facts since ⊆ facts := by
  cases since with
  | none => exact List.Subset.refl _
  | some since_dt => exact List.filter_subset_self _

variable (similarity threshold) in
theorem compute_dedup_spec (facts : List Fact) (max_facts : Nat) (since : Option DateTime) :
    Planned facts (compute_dedup similarity threshold facts max_facts since) ∧
      ((compute_dedup similarity threshold facts max_facts since).skipped = false → ∀ f ∈ drivers facts since,
        Settled similarity threshold facts (compute_dedup similarity threshold facts max_facts since).losers f) := by
  unfold compute_dedup
  by_cases large : facts.length > max_facts
  · rw [if_pos large]
    exact ⟨⟨Ordered.nil,by simp,rfl⟩,by simp⟩
  · rw [if_neg large]
    obtain ⟨sound,_,settled⟩ := scanFacts_spec similarity threshold (Sound.start facts) (drivers_subset facts since)
    refine ⟨⟨sound.ordered,sound.origin,sound.updates⟩,fun _ f driver => (settled f driver).mono fun id listed => ?_⟩
    rw [sound.expired,folded_merges] at listed
    exact listed

theorem compute_dedup_skipped {facts : List Fact} {max_facts : Nat} {since : Option DateTime} :
    (compute_dedup similarity threshold facts max_facts since).skipped = false ↔ facts.length ≤ max_facts := by
  unfold compute_dedup
  by_cases large : facts.length > max_facts
  · rw [if_pos large]
    simpa using large
  · rw [if_neg large]
    simpa using not_lt.mp large

theorem mergedInto_iff {computed : DedupComputed} : computed.MergedInto = Into (merges computed.expirations) := by
  funext a b
  exact propext mem_merges.symm

theorem mem_losers {computed : DedupComputed} {id : FactId} : id ∈ computed.losers ↔ id ∈ folded (merges computed.expirations) := by
  rw [folded_merges,DedupComputed.losers]

theorem represents_scaled {m k : Int} (digits : |m| < 2 ^ 24) (low : -149 ≤ k) (high : k ≤ 104) :
    binary32.Represents (m * (2 : ℚ) ^ k) := by
  refine ⟨?_,m,k,digits,low,rfl⟩
  have scale : (2 : ℚ) ^ k ≤ 2 ^ (104 : Int) := zpow_le_zpow_right₀ (by norm_num) high
  have size : (m : ℚ) < 2 ^ 24 := by exact_mod_cast lt_of_le_of_lt (le_abs_self m) digits
  calc (m : ℚ) * 2 ^ k < 2 ^ 24 * 2 ^ k := mul_lt_mul_of_pos_right size (zpow_pos two_pos k)
    _ ≤ 2 ^ 24 * 2 ^ (104 : Int) := mul_le_mul_of_nonneg_left scale (by norm_num)
    _ = 2 ^ 128 := by norm_num

/-- The finite bit patterns stand for numbers of the format. -/
theorem represents_datum {x : F32} {t : ℚ} (same : F32.datum x = .finite t) : binary32.Represents t := by
  have fraction : x.toNat % 2 ^ 23 < 2 ^ 23 := Nat.mod_lt _ (by norm_num)
  have biased : x.toNat / 2 ^ 23 % 2 ^ 8 < 2 ^ 8 := Nat.mod_lt _ (by norm_num)
  have signed : ∀ {m : Nat} {k : Int}, m < 2 ^ 24 → -149 ≤ k → k ≤ 104 → ∀ negative : Prop, [Decidable negative] →
      binary32.Represents (if negative then -((m : ℚ) * 2 ^ k) else (m : ℚ) * 2 ^ k) := by
    intro m k digits low high negative _
    have size : |(m : Int)| < 2 ^ 24 := by rw [Nat.abs_cast]; exact_mod_cast digits
    split
    · have flipped := represents_scaled (m := -(m : Int)) (by rwa [abs_neg]) low high
      push_cast at flipped
      rwa [neg_mul] at flipped
    · exact_mod_cast represents_scaled size low high
  unfold F32.datum at same
  simp only [] at same
  split at same
  · split at same
    · cases same
    · split at same <;> cases same
  · rename_i finite
    rw [Datum.finite.injEq] at same
    rw [← same]
    by_cases subnormal : x.toNat / 2 ^ 23 % 2 ^ 8 = 0
    · rw [if_pos subnormal]
      exact signed (by omega) (by norm_num) (by norm_num) _
    · rw [if_neg subnormal]
      exact signed (by omega) (by omega) (by omega) _

theorem epsilon_datum : ∃ e, 0 ≤ e ∧ F32.datum DEDUP_SIMILARITY_EPSILON = .finite e := by
  refine ⟨_,?_,rfl⟩
  decide +kernel

/-- A pair at or above the threshold counts as duplicates. -/
theorem duplicates_of_similar {a b : Fact}
    (similar : (F32.datum threshold).le (F32.datum (similarity a.embedding b.embedding)) = true) :
    duplicates similarity threshold a b = true := by
  obtain ⟨e,amount,same⟩ := epsilon_datum
  rw [duplicates,same]
  exact Datum.sub_le (fun _ finite => represents_datum finite) amount similar

end Dedup

/-- What a plan without a watermark owes: each fact is folded away at most once,
    pinned facts stay out of it, the survivors of survivors end at a fact that is
    kept, no two facts that were compared and kept are duplicates, and what is kept
    is as important as all that was folded into it. -/
structure DedupComputed.Deduplicates (computed : DedupComputed) (similarity : Embedding → Embedding → F32) (threshold : F32)
    (facts : List Fact) : Prop where
  once : computed.losers.Nodup
  pinned : ∀ f ∈ facts, f.is_pinned = true → ∀ id, ¬ computed.MergedInto f.id id ∧ ¬ computed.MergedInto id f.id
  acyclic : ∀ id, ¬ Relation.TransGen computed.MergedInto id id
  ends : ∀ id ∈ computed.losers, ∃ f ∈ facts, Relation.TransGen computed.MergedInto id f.id ∧ f.id ∉ computed.losers
  complete : computed.skipped = false → ∀ f ∈ facts, ∀ g ∈ facts, f.id ≠ g.id → f.is_pinned = false → g.is_pinned = false →
    f.id ∉ computed.losers → g.id ∉ computed.losers →
      (F32.datum threshold).le (F32.datum (similarity f.embedding g.embedding)) = false
  importance : ∀ f ∈ facts, ∀ g ∈ facts, Relation.TransGen computed.MergedInto f.id g.id → g.id ∉ computed.losers →
    (F64.num f.base_importance).le (computed.inherited g) = true

namespace Dedup
variable {similarity : Embedding → Embedding → F32} {threshold : F32}

theorem Planned.ends {facts : List Fact} {computed : DedupComputed} (planned : Planned facts computed) {id : FactId}
    (loser : id ∈ computed.losers) :
    ∃ f ∈ facts, Relation.TransGen computed.MergedInto id f.id ∧ f.id ∉ computed.losers := by
  obtain ⟨b,chain,kept,c,into⟩ := planned.ordered.kept (mem_losers.mp loser)
  obtain ⟨_,_,survivor,member,_,same,_⟩ := planned.origin ⟨c,b⟩ (mem_merges.mp into)
  have here : survivor.id = b := same
  refine ⟨survivor,member,?_,?_⟩
  · rw [mergedInto_iff,here]
    exact chain
  · rw [mem_losers,here]
    exact kept

/-- Along a chain of merges the importance does not fall. -/
theorem Planned.importance {facts : List Fact} {computed : DedupComputed} (planned : Planned facts computed)
    (distinct : (facts.map Fact.id).Nodup) {f g : Fact} (left : f ∈ facts) (right : g ∈ facts)
    (chain : Relation.TransGen computed.MergedInto f.id g.id) : f.base_importance ≤ g.base_importance := by
  have unique : ∀ {a b : Fact}, a ∈ facts → b ∈ facts → a.id = b.id → a = b := fun a b same =>
    List.inj_on_of_nodup_map distinct a b same
  -- every id on the chain belongs to a fact at least as important as the first
  have along : ∀ {id}, Relation.TransGen computed.MergedInto f.id id → ∃ h ∈ facts, h.id = id ∧ f.base_importance ≤ h.base_importance := by
    intro id chain
    induction chain with
    | single into =>
      obtain ⟨loser,here,survivor,there,same,same',_,_,less⟩ := planned.origin _ into
      rw [unique here left same] at less
      exact ⟨survivor,there,same',less⟩
    | tail _ into ih =>
      obtain ⟨h,held,hid,less⟩ := ih
      obtain ⟨loser,here,survivor,there,same,same',_,_,less'⟩ := planned.origin _ into
      rw [unique here held (same.trans hid.symm)] at less'
      exact ⟨survivor,there,same',less.trans less'⟩
  obtain ⟨h,held,same,less⟩ := along chain
  rwa [unique held right same] at less

end Dedup

/-- The plan for distinct facts without a watermark deduplicates them. -/
theorem compute_dedup_deduplicates (similarity : Embedding → Embedding → F32) (threshold : F32) (facts : List Fact) (max_facts : Nat)
    (distinct : (facts.map Fact.id).Nodup) :
    (Dedup.compute_dedup similarity threshold facts max_facts none).Deduplicates similarity threshold facts := by
  obtain ⟨planned,settled⟩ := Dedup.compute_dedup_spec similarity threshold facts max_facts none
  refine ⟨?_,?_,?_,fun id => planned.ends,?_,?_⟩
  · rw [DedupComputed.losers,← Dedup.folded_merges]
    exact planned.ordered.nodup
  · intro f member pinned id
    have free : ∀ {h : Fact}, h ∈ facts → h.id = f.id → h.is_pinned = false → False := by
      intro h held same free
      rw [List.inj_on_of_nodup_map distinct held member same,pinned] at free
      cases free
    refine ⟨fun into => ?_,fun into => ?_⟩
    · obtain ⟨loser,here,_,_,same,_,unpinned,_⟩ := planned.origin _ into
      exact free here same unpinned
    · obtain ⟨_,_,survivor,there,_,same,_,unpinned,_⟩ := planned.origin _ into
      exact free there same unpinned
  · intro id
    rw [Dedup.mergedInto_iff]
    exact planned.ordered.acyclic id
  · intro compared f left g right apart free free' kept kept'
    rcases settled compared f left with gone | pinned | all
    · exact absurd gone kept
    · rw [free] at pinned
      cases pinned
    · rcases all g right with same | gone | pinned | different
      · exact absurd same.symm apart
      · exact absurd gone kept'
      · rw [free'] at pinned
        cases pinned
      · by_contra similar
        rw [Dedup.duplicates_of_similar (by simpa using similar)] at different
        cases different
  · intro f left g right chain kept
    rw [DedupComputed.inherited,planned.updates]
    exact decide_eq_true (planned.importance distinct left right chain)

/-- The ids of the active facts of a store are distinct. -/
theorem active_facts_distinct (db : Db) : ((db.facts.rows.filter fun f => f.t_expired.isNone).map Fact.id).Nodup :=
  db.facts.keys_nodup.sublist (List.filter_sublist.map _)

/-- Three equal facts against the highest threshold. -/
theorem compute_dedup_deduplicates_sample : let facts := Sample.engine.storage.facts.rows.filter fun f => f.t_expired.isNone
    (Dedup.compute_dedup (fun _ _ => 0x3F800000) 0x3F800000 facts MAX_FACTS_FOR_DEDUP none).Deduplicates
      (fun _ _ => 0x3F800000) 0x3F800000 facts :=
  compute_dedup_deduplicates _ _ _ _ (active_facts_distinct _)

end MemoryEngine
