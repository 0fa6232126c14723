import MemoryEngine.RankFusion
import MemoryEngine.QueryScreen

/-! The fusion of a hybrid search as a fusion of rankings: with the scores the code adds up
in double precision, and with the exact sums they stand for. -/

namespace MemoryEngine
open Ranking RankFusion

namespace Search

/-- The reciprocal of a rank above `k`, as far as thirty-two bits count. -/
def reciprocal (k rank : Nat) : ℚ := 1 / ((min (min (k + min rank U32_MAX) U32_MAX + 1) U32_MAX : Nat) : ℚ)

/-- Scores in double precision. -/
def rrf_scale (k : Nat) : Scale F64 := ⟨F64.ofRat 0,F64.add,rrf_weight k⟩

/-- The ids of both rankings. -/
def rankings (fts vec : List (FactId × F64)) : List (List FactId) := [fts.map Prod.fst,vec.map Prod.fst]

/-- Fusion with exact scores. -/
def exact_merge (scores : Shuffle (FactId × ℚ)) (fts vec : List (FactId × F64)) (k : Nat) : List (FactId × ℚ) :=
  descending Prod.snd (scores.order ((Scale.sums (reciprocal k)).fused (rankings fts vec)))

variable {libraries : SearchLibraries} {fts vec : List (FactId × F64)} {k : Nat}

theorem credit_eq (id : FactId) (weight : F64) (scores : List (FactId × F64)) :
    credit id weight scores = (rrf_scale k).credit id weight scores := by
  induction scores with
  | nil => rfl
  | cons head rest ih =>
    obtain ⟨other,score⟩ := head
    unfold credit Scale.credit
    by_cases same : other = id
    · rw [if_pos same,if_pos same]
      rfl
    · rw [if_neg same,if_neg same,ih]

theorem credits_eq (ranking scores : List (FactId × F64)) :
    ranking.zipIdx.foldl (fun scores entry => credit entry.1.1 (rrf_weight k entry.2) scores) scores =
      (rrf_scale k).tally (ranking.map Prod.fst) 0 scores := by
  unfold Scale.tally
  rw [List.zipIdx_map,List.foldl_map]
  refine congrArg (fun step => ranking.zipIdx.foldl step scores) (funext fun scores => funext fun entry => ?_)
  exact credit_eq entry.1.1 _ scores

/-- The code fuses the two rankings in double precision. -/
theorem rrf_merge_fused : rrf_merge libraries fts vec k =
    by_score libraries (libraries.scores.order ((rrf_scale k).fused (rankings fts vec))) := by
  unfold rrf_merge
  simp only [credits_eq]
  rfl

theorem nodup_rankings (fts_nodup : (fts.map Prod.fst).Nodup) (vec_nodup : (vec.map Prod.fst).Nodup) :
    ∀ ranking ∈ rankings fts vec, ranking.Nodup := by
  intro ranking listed
  rcases List.mem_cons.mp listed with rfl | second
  · exact fts_nodup
  · rw [List.mem_singleton.mp second]
    exact vec_nodup

theorem exists_ranking {id : FactId} : (∃ ranking ∈ rankings fts vec, id ∈ ranking) ↔ id ∈ fts.map Prod.fst ∨ id ∈ vec.map Prod.fst := by
  simp [rankings]

theorem rrf_merge_perm : (rrf_merge libraries fts vec k).Perm ((rrf_scale k).fused (rankings fts vec)) := by
  rw [rrf_merge_fused]
  exact (sortBy_perm _ _ _).trans (libraries.scores.perm _)

theorem mem_rrf_merge_iff (nodup : ∀ ranking ∈ rankings fts vec, ranking.Nodup) {id : FactId} {score : F64} :
    (id,score) ∈ rrf_merge libraries fts vec k ↔ (id ∈ fts.map Prod.fst ∨ id ∈ vec.map Prod.fst) ∧
      score = (rrf_scale k).score (rankings fts vec) id := by
  rw [← exists_ranking,← mem_fused _ nodup]
  exact rrf_merge_perm.mem_iff

theorem rrf_merge_keys (nodup : ∀ ranking ∈ rankings fts vec, ranking.Nodup) : ((rrf_merge libraries fts vec k).map Prod.fst).Nodup :=
  (rrf_merge_perm.map Prod.fst).nodup_iff.mpr (represents_fused _ nodup).keys

/-- The sum of the reciprocals of the places of an id, counted from `k + 1`. -/
def reciprocalSum (k : Nat) (fts vec : List (FactId × F64)) (id : FactId) : ℚ :=
  ((rankings fts vec).map fun ranking => if id ∈ ranking then 1 / ((k + ranking.idxOf id + 1 : Nat) : ℚ) else 0).sum

theorem reciprocal_eq {rank : Nat} (small : k + rank + 1 < 2 ^ 32) : reciprocal k rank = 1 / ((k + rank + 1 : Nat) : ℚ) := by
  have exact_ : min (min (k + min rank U32_MAX) U32_MAX + 1) U32_MAX = k + rank + 1 := by
    unfold U32_MAX
    omega
  rw [reciprocal,exact_]

theorem reciprocal_pos (rank : Nat) : 0 < reciprocal k rank := by
  unfold reciprocal U32_MAX
  refine one_div_pos.mpr ?_
  exact_mod_cast (by omega : 0 < min (min (k + min rank (2 ^ 32 - 1)) (2 ^ 32 - 1) + 1) (2 ^ 32 - 1))

/-- Every place counts in full. -/
structure Fits (k : Nat) (fts vec : List (FactId × F64)) : Prop where
  fts : k + fts.length + 1 < 2 ^ 32
  vec : k + vec.length + 1 < 2 ^ 32

theorem Fits.ranking (fits : Fits k fts vec) : ∀ ranking ∈ rankings fts vec, k + ranking.length + 1 < 2 ^ 32 := by
  intro ranking listed
  rcases List.mem_cons.mp listed with rfl | second
  · rw [List.length_map]
    exact fits.fts
  · rw [List.mem_singleton.mp second,List.length_map]
    exact fits.vec

theorem Fits.score (fits : Fits k fts vec) (id : FactId) :
    (Scale.sums (reciprocal k)).score (rankings fts vec) id = reciprocalSum k fts vec id := by
  rw [score_sums]
  refine congrArg List.sum (List.map_congr_left fun ranking listed => ?_)
  by_cases member : id ∈ ranking
  · have place := List.idxOf_lt_length_iff.mpr member
    have room := fits.ranking ranking listed
    rw [share_of_mem member,if_pos member,reciprocal_eq (by omega)]
  · rw [share_of_not_mem member,if_neg member]

theorem Fits.falling (fits : Fits k fts vec) : ∀ ranking ∈ rankings fts vec, ∀ rank rank', rank < rank' → rank' < ranking.length →
    reciprocal k rank' < reciprocal k rank := by
  intro ranking listed rank rank' later inside
  have room := fits.ranking ranking listed
  rw [reciprocal_eq (by omega),reciprocal_eq (by omega)]
  refine one_div_lt_one_div_of_lt ?_ ?_
  · exact_mod_cast Nat.succ_pos _
  · exact_mod_cast (by omega : k + rank + 1 < k + rank' + 1)

theorem mem_exact_merge (scores : Shuffle (FactId × ℚ)) (nodup : ∀ ranking ∈ rankings fts vec, ranking.Nodup) {id : FactId} {score : ℚ} :
    (id,score) ∈ exact_merge scores fts vec k ↔ (id ∈ fts.map Prod.fst ∨ id ∈ vec.map Prod.fst) ∧
      score = (Scale.sums (reciprocal k)).score (rankings fts vec) id := by
  rw [← exists_ranking,← mem_fused _ nodup]
  exact ((descending_perm _ _).trans (scores.perm _)).mem_iff

theorem exact_merge_keys (scores : Shuffle (FactId × ℚ)) (nodup : ∀ ranking ∈ rankings fts vec, ranking.Nodup) :
    ((exact_merge scores fts vec k).map Prod.fst).Nodup :=
  (((descending_perm _ _).trans (scores.perm _)).map Prod.fst).nodup_iff.mpr (represents_fused _ nodup).keys

/-- In a list sorted by score an id of a higher score comes first. -/
theorem idxOf_lt_of_score {merged : List (FactId × ℚ)} (sorted : merged.Pairwise fun a b => b.2 ≤ a.2) {total : FactId → ℚ}
    (totals : ∀ entry ∈ merged, entry.2 = total entry.1) {first second : FactId} (listed : first ∈ merged.map Prod.fst)
    (higher : total second < total first) : (merged.map Prod.fst).idxOf first < (merged.map Prod.fst).idxOf second := by
  induction merged with
  | nil => cases listed
  | cons head rest ih =>
    obtain ⟨top,later⟩ := List.pairwise_cons.mp sorted
    have own := totals head List.mem_cons_self
    rw [List.map_cons]
    by_cases here : head.1 = first
    · have apart : head.1 ≠ second := by
        intro same
        rw [← here,← same] at higher
        exact lt_irrefl _ higher
      rw [List.idxOf_cons_eq _ here,List.idxOf_cons_ne _ apart]
      exact Nat.succ_pos _
    · have behind : first ∈ rest.map Prod.fst := by
        rcases List.mem_cons.mp listed with now_ | rest_
        · exact absurd now_.symm here
        · exact rest_
      have apart : head.1 ≠ second := by
        intro same
        obtain ⟨entry,member,named⟩ := List.mem_map.mp behind
        have below := top entry member
        rw [own,totals entry (List.mem_cons_of_mem _ member),same,named] at below
        exact absurd higher (not_lt.mpr below)
      rw [List.idxOf_cons_ne _ here,List.idxOf_cons_ne _ apart]
      exact Nat.succ_lt_succ (ih later (fun entry member => totals entry (List.mem_cons_of_mem _ member)) behind)

/-- Fusion lists the same ids with exact scores: every id of the two rankings once, from the
    highest sum of reciprocal places down, so an id that dominates another comes before it. -/
theorem exact_merge_ranked (scores : Shuffle (FactId × ℚ)) (fts_nodup : (fts.map Prod.fst).Nodup) (vec_nodup : (vec.map Prod.fst).Nodup)
    (fits : Fits k fts vec) :
    ((rrf_merge libraries fts vec k).map Prod.fst).Perm ((exact_merge scores fts vec k).map Prod.fst) ∧
      ((exact_merge scores fts vec k).map Prod.fst).Nodup ∧
      (∀ id, id ∈ (exact_merge scores fts vec k).map Prod.fst ↔ id ∈ fts.map Prod.fst ∨ id ∈ vec.map Prod.fst) ∧
      (∀ entry ∈ exact_merge scores fts vec k, entry.2 = reciprocalSum k fts vec entry.1) ∧
      ((exact_merge scores fts vec k).Pairwise fun a b => reciprocalSum k fts vec b.1 ≤ reciprocalSum k fts vec a.1) ∧
      ∀ first second, Dominates (rankings fts vec) first second →
        ((exact_merge scores fts vec k).map Prod.fst).idxOf first < ((exact_merge scores fts vec k).map Prod.fst).idxOf second := by
  have nodup := nodup_rankings fts_nodup vec_nodup
  have totals : ∀ entry ∈ exact_merge scores fts vec k, entry.2 = reciprocalSum k fts vec entry.1 := by
    intro entry member
    rw [← fits.score]
    exact ((mem_exact_merge scores nodup).mp member).2
  have listed : ∀ id, id ∈ (exact_merge scores fts vec k).map Prod.fst ↔ id ∈ fts.map Prod.fst ∨ id ∈ vec.map Prod.fst := by
    intro id
    constructor
    · intro member
      obtain ⟨entry,inside,rfl⟩ := List.mem_map.mp member
      exact ((mem_exact_merge scores nodup).mp inside).1
    · intro ranked
      exact List.mem_map.mpr ⟨_,(mem_exact_merge scores nodup).mpr ⟨ranked,rfl⟩,rfl⟩
  have sorted : (exact_merge scores fts vec k).Pairwise fun a b => b.2 ≤ a.2 := descending_sorted Prod.snd _
  refine ⟨?_,exact_merge_keys scores nodup,listed,totals,?_,?_⟩
  · refine (List.perm_ext_iff_of_nodup (rrf_merge_keys nodup) (exact_merge_keys scores nodup)).mpr fun id => ?_
    rw [listed]
    constructor
    · intro member
      obtain ⟨entry,inside,rfl⟩ := List.mem_map.mp member
      exact ((mem_rrf_merge_iff nodup).mp inside).1
    · intro ranked
      exact List.mem_map.mpr ⟨_,(mem_rrf_merge_iff nodup).mpr ⟨ranked,rfl⟩,rfl⟩
  · refine sorted.imp_of_mem fun {a b} left right lower => ?_
    rwa [totals a left,totals b right] at lower
  · intro first second dominates
    obtain ⟨ranking,among,there,_⟩ := dominates.somewhere
    refine idxOf_lt_of_score sorted totals ((listed first).mpr (exists_ranking.mp ⟨ranking,among,there⟩)) ?_
    rw [← fits.score,← fits.score]
    exact dominates.score_lt reciprocal_pos fits.falling

theorem exact_merge_ranked_sample : ((rrf_merge Sample.libraries [(1,F64.ofRat 3),(2,F64.ofRat 2)] [(2,F64.ofRat 1)] 60).map Prod.fst).Perm
    ((exact_merge (Shuffle.keep _) [(1,F64.ofRat 3),(2,F64.ofRat 2)] [(2,F64.ofRat 1)] 60).map Prod.fst) := by
  have fits : Fits 60 [((1 : FactId),F64.ofRat 3),(2,F64.ofRat 2)] [((2 : FactId),F64.ofRat 1)] := ⟨by decide,by decide⟩
  exact (exact_merge_ranked (Shuffle.keep _) (by decide) (by decide) fits).1

end Search
end MemoryEngine
