import MemoryEngine.FusionRanking
import MemoryEngine.QueryRanking
import MemoryEngine.Truncation

/-! The order a hybrid search leaves open. Fusion collects its scores in a hash map and sorts
them by score alone, so the ids of one score come in whatever order the map is walked, and
the limit may cut between them. -/

namespace MemoryEngine

namespace F64
open Rounding

/-- A number at most one, or the negative infinity. -/
def AtMostOne (x : F64) : Prop := x.datum.le (.finite 1) = true

theorem one_represented : binary64.Represents 1 := by
  refine ⟨one_lt_pow₀ (by norm_num) (by norm_num),1,0,by decide,by decide,by norm_num⟩

theorem atMostOne_ofDatum_round {q : ℚ} (bound : q ≤ 1) : (ofDatum (binary64.round q)).AtMostOne := by
  rw [AtMostOne,datum_ofDatum]
  exact Format.round_le bound one_represented

theorem AtMostOne.zero_add {w : F64} (bounded : w.AtMostOne) : ((ofRat 0).add w).AtMostOne := by
  have zero : (ofRat 0).datum = .finite 0 := rfl
  rw [AtMostOne] at bounded
  rw [AtMostOne,add,datum_ofDatum,zero]
  cases same : w.datum with
  | nan => rw [same] at bounded; cases bounded
  | negInfinite => rfl
  | infinite => rw [same] at bounded; cases bounded
  | finite q =>
    rw [same] at bounded
    refine Format.round_le ?_ one_represented
    have small : q ≤ 1 := of_decide_eq_true bounded
    linarith

theorem AtMostOne.ne_nan {x : F64} (bounded : x.AtMostOne) : x ≠ .nan := by
  rintro rfl
  cases bounded

theorem AtMostOne.add_ne_nan {a b : F64} (left : a.AtMostOne) (right : b.AtMostOne) : a.add b ≠ .nan := by
  refine mt ofDatum_eq_nan.mp ?_
  rw [AtMostOne] at left right
  cases same : a.datum with
  | nan => rw [same] at left; cases left
  | infinite => rw [same] at left; cases left
  | finite p => exact Datum.add_ne_nan (mt datum_eq_nan.mp (AtMostOne.ne_nan right))
  | negInfinite =>
    cases other : b.datum with
    | nan => rw [other] at right; cases right
    | infinite => rw [other] at right; cases right
    | finite q => exact Datum.noConfusion
    | negInfinite => exact Datum.noConfusion

theorem rank_injective {a b : F64} (same : a.rank = b.rank) : a = b := by
  cases a <;> cases b <;> simp_all [rank]

end F64

namespace Search
open Time Transaction Ranking RankFusion KeyedTable
variable (self : SqliteBackend) (libraries : SearchLibraries)

/-- What a hybrid search makes of the two channels, where the scores come out of the map in
    one order. -/
def hybrid_results (order : Shuffle (FactId × F64)) (k : Nat) (query : SearchQuery) (now : DateTime) (fts vec : List (FactId × F64)) :
    Sql (List SearchResult × QueryDiagnostics) := do
  let ranked := rrf_merge { libraries with scores := order } fts vec k
  let facts_by_id ← get_facts self (ranked.map Prod.fst)
  return assemble_results query now ranked (fts.map Prod.fst) (vec.map Prod.fst) fts.length vec.length facts_by_id

/-- A hybrid search fuses what its two channels return. -/
theorem port_hybrid_search_eq {query : SearchQuery} (mode : query.mode = .Hybrid) (scope_ids : Option (List Int)) (now : DateTime) :
    port_hybrid_search self libraries query scope_ids now = (do
      let fts ← fts_results libraries query ⟨query.fact_type,scope_ids⟩ (tripled (effective_target query))
      let vec ← vec_results self libraries query ⟨query.fact_type,scope_ids⟩ (tripled (effective_target query))
      hybrid_results self libraries libraries.scores RRF_K query now fts vec) := by
  unfold port_hybrid_search
  rw [mode]
  rfl

variable {self libraries} {fts vec : List (FactId × F64)} {k : Nat}

theorem reciprocal_le_one (rank : Nat) : reciprocal k rank ≤ 1 := by
  unfold reciprocal U32_MAX
  refine div_le_one_of_le₀ ?_ (Nat.cast_nonneg _)
  exact_mod_cast (by omega : 1 ≤ min (min (k + min rank (2 ^ 32 - 1)) (2 ^ 32 - 1) + 1) (2 ^ 32 - 1))

/-- The score of an id of two rankings is a number. -/
theorem score_ne_nan (fts vec : List (FactId × F64)) (k : Nat) (id : FactId) : (rrf_scale k).score (rankings fts vec) id ≠ .nan := by
  have weight : ∀ rank, (rrf_weight k rank).AtMostOne := fun rank => F64.atMostOne_ofDatum_round (reciprocal_le_one rank)
  have few : (Scale.ranks (rankings fts vec) id).length ≤ 2 := List.length_filterMap_le _ _
  unfold Scale.score
  match Scale.ranks (rankings fts vec) id,few with
  | [],_ => exact F64.noConfusion
  | [rank],_ => exact (weight rank).zero_add.ne_nan
  | [rank,rank'],_ => exact (weight rank).zero_add.add_ne_nan (weight rank')
  | _ :: _ :: _ :: _,few => simp at few

/-- Fused scores compare, so the fused list is sorted for every order of the map. -/
theorem rrf_merge_sorted (order : Shuffle (FactId × F64)) (nodup : ∀ ranking ∈ rankings fts vec, ranking.Nodup) :
    rrf_merge { libraries with scores := order } fts vec k =
      descending (fun entry => entry.2.rank) (order.order ((rrf_scale k).fused (rankings fts vec))) := by
  rw [rrf_merge_fused]
  unfold by_score sortBy
  rw [if_neg]
  rintro ⟨entry,listed,bot⟩
  have inside := (order.perm _).mem_iff.mp listed
  have nan : entry.2 = .nan := F64.rank_eq_bot.mp bot
  rw [((mem_fused _ nodup).mp inside).2] at nan
  exact score_ne_nan fts vec k entry.1 nan

/-- The result an entry of the ranking stands for, if its fact is loaded and valid at the cutoff. -/
def shown (cutoff : DateTime) (fts_ids vec_ids : List FactId) (facts_by_id : List Fact) (entry : FactId × F64) : Option SearchResult :=
  ((facts_by_id.find? (fun f => f.id == entry.1)).filter (fun f => passes_temporal_cutoff f cutoff)).map fun f =>
    ⟨f,entry.2,match_type fts_ids vec_ids entry.1⟩

/-- A ranking without duplicates finds every fact it lists, in order. -/
theorem candidates_shown {cutoff : DateTime} {fts_ids vec_ids : List FactId} {ranked : List (FactId × F64)} (keys : (ranked.map Prod.fst).Nodup)
    (facts_by_id : List Fact) : (candidates fts_ids vec_ids ranked facts_by_id).filter (fun r => passes_temporal_cutoff r.fact cutoff) =
      ranked.filterMap (shown cutoff fts_ids vec_ids facts_by_id) := by
  induction ranked generalizing facts_by_id with
  | nil => rfl
  | cons head rest ih =>
    obtain ⟨id,score⟩ := head
    obtain ⟨apart,distinct⟩ := List.nodup_cons.mp keys
    rw [List.filterMap_cons]
    unfold candidates
    cases found : facts_by_id.find? (fun f => f.id == id) with
    | none =>
      have nothing : shown cutoff fts_ids vec_ids facts_by_id (id,score) = none := by simp [shown,found]
      rw [nothing]
      exact ih distinct facts_by_id
    | some fact =>
      have later : rest.filterMap (shown cutoff fts_ids vec_ids (facts_by_id.filter (fun f => f.id ≠ id))) =
          rest.filterMap (shown cutoff fts_ids vec_ids facts_by_id) := by
        refine List.filterMap_congr fun entry member => ?_
        have other : entry.1 ≠ id := fun same => apart (List.mem_map.mpr ⟨entry,member,same⟩)
        unfold shown
        rw [List.find?_filter]
        refine congrArg (fun found : Option Fact => (found.filter (fun f => passes_temporal_cutoff f cutoff)).map fun f =>
          (⟨f,entry.2,match_type fts_ids vec_ids entry.1⟩ : SearchResult)) (congrArg (fun test => facts_by_id.find? test) (funext fun f => ?_))
        by_cases here : f.id = entry.1 <;> simp [here,other]
      by_cases passes : passes_temporal_cutoff fact cutoff = true
      · have result : shown cutoff fts_ids vec_ids facts_by_id (id,score) = some ⟨fact,score,match_type fts_ids vec_ids id⟩ := by
          simp [shown,found,passes]
        rw [result]
        simp only [List.filter_cons,passes,if_true]
        rw [ih distinct,later]
      · have nothing : shown cutoff fts_ids vec_ids facts_by_id (id,score) = none := by simp [shown,found,passes]
        rw [nothing]
        simp only [List.filter_cons,passes,if_false,Bool.false_eq_true]
        rw [ih distinct,later]

theorem shown_inverse {cutoff : DateTime} {fts_ids vec_ids : List FactId} {facts_by_id : List Fact} (entry : FactId × F64) (r : SearchResult)
    (made : shown cutoff fts_ids vec_ids facts_by_id entry = some r) : (r.fact.id,r.score) = entry := by
  obtain ⟨f,kept,rfl⟩ := Option.map_eq_some_iff.mp made
  obtain ⟨found,_⟩ := Option.filter_eq_some_iff.mp kept
  have same := List.find?_some found
  exact Prod.ext (by simpa using same) rfl

/-- The id is of a ranked fact that is valid at the cutoff of the query. -/
def visible (query : SearchQuery) (now : DateTime) (s : Db) (id : FactId) : Bool :=
  s.facts.rows.any fun f => f.id == id && passes_temporal_cutoff f (query.valid_at.getD now)

/-- The ids of the two rankings, each once. -/
def rankedIds (fts vec : List (FactId × F64)) : List FactId := (fts.map Prod.fst ++ vec.map Prod.fst).dedup

/-- Every fact of the two rankings reads back. -/
def Loads (self : SqliteBackend) (s : Db) (fts vec : List (FactId × F64)) : Prop :=
  ∀ f ∈ s.facts.rows, f.id ∈ rankedIds fts vec → f.Readable self.embed_dim

/-- Two visible ids of one score have enough visible ids of a higher score before them to
    fill the limit. -/
def Untied (query : SearchQuery) (now : DateTime) (s : Db) (fts vec : List (FactId × F64)) (k : Nat) : Prop :=
  ∀ a ∈ rankedIds fts vec, ∀ b ∈ rankedIds fts vec, visible query now s a = true → visible query now s b = true → a ≠ b →
    (rrf_scale k).score (rankings fts vec) a = (rrf_scale k).score (rankings fts vec) b →
      effective_target query ≤ (rankedIds fts vec).countP fun c => visible query now s c &&
        ((rrf_scale k).score (rankings fts vec) a).lt ((rrf_scale k).score (rankings fts vec) c)

theorem mem_rankedIds {id : FactId} : id ∈ rankedIds fts vec ↔ id ∈ fts.map Prod.fst ∨ id ∈ vec.map Prod.fst := by
  rw [rankedIds,List.mem_dedup,List.mem_append]

theorem keys_fused (nodup : ∀ ranking ∈ rankings fts vec, ranking.Nodup) :
    (((rrf_scale k).fused (rankings fts vec)).map Prod.fst).Perm (rankedIds fts vec) := by
  refine (List.perm_ext_iff_of_nodup (represents_fused _ nodup).keys (List.nodup_dedup _)).mpr fun id => ?_
  change _ ↔ id ∈ rankedIds fts vec
  rw [mem_rankedIds,← exists_ranking]
  constructor
  · intro listed
    obtain ⟨entry,member,rfl⟩ := List.mem_map.mp listed
    exact ((mem_fused _ nodup).mp member).1
  · intro ranked
    exact List.mem_map.mpr ⟨_,(mem_fused _ nodup).mpr ⟨ranked,rfl⟩,rfl⟩

theorem get_facts_congr {ids ids' : List FactId} (same : ∀ id, id ∈ ids ↔ id ∈ ids') : get_facts self ids = get_facts self ids' := by
  have contained : ∀ id, ids.contains id = ids'.contains id := by
    intro id
    rw [Bool.eq_iff_iff,List.contains_iff_mem,List.contains_iff_mem]
    exact same id
  unfold get_facts
  simp only [contained]

/-- An entry has a result exactly when its id is visible. -/
theorem shown_isSome {query : SearchQuery} {now : DateTime} {s : Db} {fts_ids vec_ids : List FactId} {entry : FactId × F64}
    (ranked : entry.1 ∈ rankedIds fts vec) :
    (shown (query.valid_at.getD now) fts_ids vec_ids (s.facts.rows.filter (fun f => (rankedIds fts vec).contains f.id)) entry).isSome =
      visible query now s entry.1 := by
  rw [Bool.eq_iff_iff,visible,List.any_eq_true,shown,Option.isSome_map]
  constructor
  · intro some_
    obtain ⟨f,kept⟩ := Option.isSome_iff_exists.mp some_
    obtain ⟨found,passes⟩ := Option.filter_eq_some_iff.mp kept
    have same := List.find?_some found
    exact ⟨f,(List.mem_filter.mp (List.mem_of_find?_eq_some found)).1,by simp only [same,passes,Bool.and_self]⟩
  · rintro ⟨f,member,test⟩
    obtain ⟨named,passes⟩ := Bool.and_eq_true_iff.mp test
    have same : f.id = entry.1 := by simpa using named
    have loaded : f ∈ s.facts.rows.filter (fun f => (rankedIds fts vec).contains f.id) :=
      List.mem_filter.mpr ⟨member,by rw [same]; exact List.contains_iff_mem.mpr ranked⟩
    have somewhere : ((s.facts.rows.filter (fun f => (rankedIds fts vec).contains f.id)).find? (fun f => f.id == entry.1)).isSome = true :=
      List.find?_isSome.mpr ⟨f,loaded,named⟩
    obtain ⟨g,found⟩ := Option.isSome_iff_exists.mp somewhere
    have equal : g = f := by
      have there := List.find?_some found
      refine s.facts.key_unique (List.mem_filter.mp (List.mem_of_find?_eq_some found)).1 member ?_
      have here : g.id = entry.1 := by simpa using there
      exact here.trans same.symm
    rw [found,equal]
    exact Option.isSome_iff_exists.mpr ⟨f,Option.filter_eq_some_iff.mpr ⟨rfl,passes⟩⟩

/-- The visible entries are clear up to the limit exactly when no tie of visible ids reaches it. -/
theorem clear_iff_untied {query : SearchQuery} {now : DateTime} {s : Db} (nodup : ∀ ranking ∈ rankings fts vec, ranking.Nodup) :
    Clear (fun entry => entry.2.rank) (effective_target query)
      (((rrf_scale k).fused (rankings fts vec)).filter (fun entry => visible query now s entry.1)) ↔ Untied query now s fts vec k := by
  have scored : ∀ entry ∈ (rrf_scale k).fused (rankings fts vec), entry.2 = (rrf_scale k).score (rankings fts vec) entry.1 :=
    fun entry member => ((mem_fused _ nodup).mp member).2
  have held : ∀ {id}, id ∈ rankedIds fts vec → visible query now s id = true → (id,(rrf_scale k).score (rankings fts vec) id) ∈
      ((rrf_scale k).fused (rankings fts vec)).filter (fun entry => visible query now s entry.1) := fun ranked seen =>
    List.mem_filter.mpr ⟨(mem_fused _ nodup).mpr ⟨exists_ranking.mpr (mem_rankedIds.mp ranked),rfl⟩,seen⟩
  have counted : ∀ a, (((rrf_scale k).fused (rankings fts vec)).filter (fun entry => visible query now s entry.1)).countP
      (fun c => ((rrf_scale k).score (rankings fts vec) a).rank < c.2.rank) = (rankedIds fts vec).countP fun c => visible query now s c &&
        ((rrf_scale k).score (rankings fts vec) a).lt ((rrf_scale k).score (rankings fts vec) c) := by
    intro a
    rw [← (keys_fused nodup).countP_eq,List.countP_map,List.countP_filter]
    refine List.countP_congr fun entry member => ?_
    have lower : ((rrf_scale k).score (rankings fts vec) a).lt entry.2 = true ↔ _ := F64.lt_iff_rank (score_ne_nan fts vec k a)
    rw [Function.comp_apply,← scored entry member,Bool.and_eq_true_iff,Bool.and_eq_true_iff,decide_eq_true_iff,← lower]
    exact and_comm
  constructor
  · intro clear a left b right seen seen' apart level
    rw [← counted]
    refine clear _ (held left seen) _ (held right seen') (fun same => apart (congrArg Prod.fst same)) ?_
    exact congrArg F64.rank level
  · intro untied a left b right apart level
    obtain ⟨among,seen⟩ := List.mem_filter.mp left
    obtain ⟨among',seen'⟩ := List.mem_filter.mp right
    have score := scored a among
    have score' := scored b among'
    have ranked := (keys_fused nodup).mem_iff.mp (List.mem_map.mpr ⟨a,among,rfl⟩)
    have ranked' := (keys_fused nodup).mem_iff.mp (List.mem_map.mpr ⟨b,among',rfl⟩)
    have equal : a.2 = b.2 := F64.rank_injective level
    have ids : a.1 ≠ b.1 := fun same => apart (Prod.ext same equal)
    have above := untied a.1 ranked b.1 ranked' seen seen' ids (by rw [← score,← score',equal])
    rw [← counted,← score] at above
    exact above

/-- What two rankings of the same facts are assembled to agrees exactly when the entries do
    that the limit leaves of the visible ones. -/
theorem assemble_eq_iff {query : SearchQuery} {now : DateTime} {s : Db} {ranked ranked' : List (FactId × F64)} (same : ranked.Perm ranked')
    (keys : (ranked.map Prod.fst).Nodup) (among : ∀ entry ∈ ranked, entry.1 ∈ rankedIds fts vec) :
    assemble_results query now ranked (fts.map Prod.fst) (vec.map Prod.fst) fts.length vec.length
        (s.facts.rows.filter (fun f => (rankedIds fts vec).contains f.id)) =
      assemble_results query now ranked' (fts.map Prod.fst) (vec.map Prod.fst) fts.length vec.length
        (s.facts.rows.filter (fun f => (rankedIds fts vec).contains f.id)) ↔
      (ranked.filter (fun entry => visible query now s entry.1)).take (effective_target query) =
        (ranked'.filter (fun entry => visible query now s entry.1)).take (effective_target query) := by
  have keys' : (ranked'.map Prod.fst).Nodup := (same.map Prod.fst).nodup_iff.mp keys
  have seen : ∀ l : List (FactId × F64), (∀ entry ∈ l, entry.1 ∈ rankedIds fts vec) →
      l.filter (fun entry => (shown (query.valid_at.getD now) (fts.map Prod.fst) (vec.map Prod.fst)
        (s.facts.rows.filter (fun f => (rankedIds fts vec).contains f.id)) entry).isSome) = l.filter (fun entry => visible query now s entry.1) :=
    fun l all => List.filter_congr fun entry member => shown_isSome (all entry member)
  rw [← seen ranked among,← seen ranked' (fun entry member => among entry (same.mem_iff.mpr member)),← take_filterMap_iff shown_inverse,
    ← candidates_shown keys,← candidates_shown keys']
  unfold assemble_results
  simp only [collect_eq,List.nil_append,List.length_nil,Nat.sub_zero,same.length_eq,Prod.mk.injEq]
  constructor
  · exact fun equal => equal.1
  · intro equal
    rw [equal]
    exact ⟨rfl,rfl⟩

/-- The outcome of fusing two rankings of distinct ids does not depend on the order of the map
    exactly when a fact does not read back or no tie of visible ids reaches into the limit. -/
theorem hybrid_results_fixed_iff {query : SearchQuery} {now : DateTime} {s : Db} (fts_nodup : (fts.map Prod.fst).Nodup)
    (vec_nodup : (vec.map Prod.fst).Nodup) :
    (∀ order order', (hybrid_results self libraries order k query now fts vec).run s = (hybrid_results self libraries order' k query now fts vec).run s) ↔
      (Loads self s fts vec → Untied query now s fts vec k) := by
  have nodup := nodup_rankings fts_nodup vec_nodup
  have loaded : ∀ order, hybrid_results self libraries order k query now fts vec = get_facts self (rankedIds fts vec) >>= fun facts_by_id =>
      pure (assemble_results query now (rrf_merge { libraries with scores := order } fts vec k) (fts.map Prod.fst) (vec.map Prod.fst)
        fts.length vec.length facts_by_id) := by
    intro order
    have same : ∀ id, id ∈ (rrf_merge { libraries with scores := order } fts vec k).map Prod.fst ↔ id ∈ rankedIds fts vec :=
      fun id => ((rrf_merge_perm.map Prod.fst).trans (keys_fused nodup)).mem_iff
    exact congrArg (fun load : Sql (List Fact) => load >>= fun facts_by_id => pure (assemble_results query now
      (rrf_merge { libraries with scores := order } fts vec k) (fts.map Prod.fst) (vec.map Prod.fst) fts.length vec.length facts_by_id))
      (get_facts_congr same)
  simp only [loaded,StateT.run_bind]
  cases ran : (get_facts self (rankedIds fts vec)).run s with
  | error e =>
    refine iff_of_true (fun _ _ => rfl) fun loads => ?_
    have read : Commits (get_facts self (rankedIds fts vec)) s (s.facts.rows.filter (fun f => (rankedIds fts vec).contains f.id)) s := by
      refine commits_get_facts.mpr ⟨rfl,rfl,fun f listed => ?_⟩
      obtain ⟨member,named⟩ := List.mem_filter.mp listed
      exact loads f member (List.contains_iff_mem.mp named)
    rw [Commits,ran] at read
    cases read
  | ok outcome =>
    obtain ⟨facts_by_id,t⟩ := outcome
    obtain ⟨rfl,rfl,readable⟩ := commits_get_facts.mp ran
    have loads : Loads self t fts vec := fun f member ranked =>
      readable f (List.mem_filter.mpr ⟨member,List.contains_iff_mem.mpr ranked⟩)
    have agree : ∀ order order', assemble_results query now (rrf_merge { libraries with scores := order } fts vec k) (fts.map Prod.fst)
          (vec.map Prod.fst) fts.length vec.length (t.facts.rows.filter (fun f => (rankedIds fts vec).contains f.id)) =
        assemble_results query now (rrf_merge { libraries with scores := order' } fts vec k) (fts.map Prod.fst)
          (vec.map Prod.fst) fts.length vec.length (t.facts.rows.filter (fun f => (rankedIds fts vec).contains f.id)) ↔
        ((descending (fun entry => entry.2.rank) (order.order ((rrf_scale k).fused (rankings fts vec)))).filter
            (fun entry => visible query now t entry.1)).take (effective_target query) =
          ((descending (fun entry => entry.2.rank) (order'.order ((rrf_scale k).fused (rankings fts vec)))).filter
            (fun entry => visible query now t entry.1)).take (effective_target query) := by
      intro order order'
      rw [assemble_eq_iff (rrf_merge_perm.trans rrf_merge_perm.symm) (rrf_merge_keys nodup),rrf_merge_sorted order nodup,rrf_merge_sorted order' nodup]
      intro entry member
      exact (keys_fused nodup).mem_iff.mp (List.mem_map.mpr ⟨entry,rrf_merge_perm.mem_iff.mp member,rfl⟩)
    have fixed := (take_order_iff (fun entry => entry.2.rank) ((rrf_scale k).fused (rankings fts vec))
      (fun entry => visible query now t entry.1) (effective_target query)).trans (clear_iff_untied nodup)
    constructor
    · intro all _
      refine fixed.mp fun order order' => (agree order order').mp ?_
      exact congrArg Prod.fst (Except.ok.inj (all order order'))
    · intro untied order order'
      have same := (agree order order').mpr (fixed.mpr (untied loads) order order')
      exact congrArg (fun found => Except.ok (found,t)) same

end Search

namespace Sample

/-- The first two facts, each first in one channel. -/
def lexical : List (FactId × F64) := [(1,F64.ofRat 1)]
def nearest : List (FactId × F64) := [(2,F64.ofRat 1)]

def best : SearchQuery := { text := some "a", embedding := some [0], mode := .Hybrid, limit := 1 }

/-- The order that reverses. -/
def reversed : Ranking.Shuffle (FactId × F64) := ⟨List.reverse,List.reverse_perm⟩

end Sample

namespace Search
open Transaction Ranking

theorem hybrid_results_fixed_sample :
    (∀ order order', (hybrid_results Sample.backend Sample.libraries order RRF_K Sample.best Sample.moment Sample.lexical Sample.nearest).run Sample.engine.storage =
      (hybrid_results Sample.backend Sample.libraries order' RRF_K Sample.best Sample.moment Sample.lexical Sample.nearest).run Sample.engine.storage) ↔
      (Loads Sample.backend Sample.engine.storage Sample.lexical Sample.nearest →
        Untied Sample.best Sample.moment Sample.engine.storage Sample.lexical Sample.nearest RRF_K) :=
  hybrid_results_fixed_iff (by decide) (by decide)

/-- Two facts that lead one channel each share the best score, and the map decides which of
    them a search for one result returns. -/
theorem tie_order_decides : ¬ ∀ (self : SqliteBackend) (libraries : SearchLibraries) (order order' : Shuffle (FactId × F64)) (k : Nat)
    (query : SearchQuery) (now : Time.DateTime) (fts vec : List (FactId × F64)) (s : Db),
    (fts.map Prod.fst).Nodup → (vec.map Prod.fst).Nodup → (hybrid_results self libraries order k query now fts vec).run s =
      (hybrid_results self libraries order' k query now fts vec).run s := by
  intro claim
  have same := claim Sample.backend Sample.libraries (Shuffle.keep _) Sample.reversed RRF_K Sample.best Sample.moment Sample.lexical
    Sample.nearest Sample.engine.storage (by decide) (by decide)
  have first : Ends (hybrid_results Sample.backend Sample.libraries (Shuffle.keep _) RRF_K Sample.best Sample.moment Sample.lexical Sample.nearest)
      Sample.engine.storage (fun found _ => found.1.map (fun r => r.fact.id) == [1]) = true := by decide +kernel
  have second : Ends (hybrid_results Sample.backend Sample.libraries Sample.reversed RRF_K Sample.best Sample.moment Sample.lexical Sample.nearest)
      Sample.engine.storage (fun found _ => found.1.map (fun r => r.fact.id) == [1]) = false := by decide +kernel
  rw [Ends,same] at first
  rw [Ends,first] at second
  cases second

end Search
end MemoryEngine
