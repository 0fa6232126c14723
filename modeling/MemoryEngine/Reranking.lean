import MemoryEngine.QueryRanking

/-! The reranking stage of a query. The results are moved out of the candidates at the
indices that the reranker returns, and a second move from one place, or a move from no
place, is a panic. -/

namespace MemoryEngine
open Time KeyedTable Transaction Search

abbrev JoinError := String

def spawn_join_err (e : JoinError) : MemoryError := .Internal s!"offloaded task failed: {e}"

/-- The call runs in a task of its own, which can end without a result. -/
structure Reranker where
  rerank : String → List SearchResult → Except JoinError (Except MemoryError (List (Nat × F64)))

/-- What fails in a reranker is reported as an error of the reranker. -/
def Reranker.Documented (reranker : Reranker) : Prop := ∀ text candidates error,
  reranker.rerank text candidates = .ok (.error error) → ∃ why, error = .Reranker why

namespace Rerank

/-- The loop over the pairs, with the indices seen. -/
def validate_pairs (num_candidates : Nat) : List Nat → List (Nat × F64) → Except MemoryError Unit
  | _,[] => .ok ()
  | seen,(idx,score) :: output =>
    if idx ≥ num_candidates then .error (.Reranker (.OutOfBoundsIndex idx num_candidates)) else
    if idx ∈ seen then .error (.Reranker (.DuplicateIndex idx)) else
    if score.is_finite = false then .error (.Reranker (.NonFiniteScore score idx)) else
    validate_pairs num_candidates (idx :: seen) output

def validate_reranker_output (num_candidates : Nat) (output : List (Nat × F64)) : Except MemoryError Unit :=
  if output.length > num_candidates then .error (.Reranker (.OutputTooLong output.length num_candidates)) else
  validate_pairs num_candidates [] output

/-- Move the results out in the order of the pairs, each with its new score. No result is a
    panic: the index is out of range, or its candidate has been moved before. -/
def reconstruct : List (Option SearchResult) → List (Nat × F64) → Option (List SearchResult)
  | _,[] => some []
  | candidates,(idx,score) :: ranked =>
    match candidates[idx]? with
    | some (some r) => (reconstruct (candidates.set idx none) ranked).map ({ r with score := score } :: ·)
    | _ => none

/-- The reranker is asked where there is one and the query has a text. -/
def apply_reranker (reranker : Option Reranker) (text : Option String) (results : List SearchResult) :
    Except MemoryError (Option (List SearchResult)) :=
  match reranker,text with
  | some reranker,some text => do
    let returned ← (reranker.rerank text results).mapError spawn_join_err
    let ranked ← returned
    validate_reranker_output results.length ranked
    return reconstruct (results.map some) ranked
  | _,_ => return some results

/-- Everything after the search. No results at all are a panic. -/
def finish (reranker : Option Reranker) (text : Option String) (limit : Nat) (results : List SearchResult) :
    Except MemoryError (Option (List SearchResult)) := do
  let results ← apply_reranker reranker text results
  return results.map (·.take limit)

def query (ctx : MemoryCtx) (libraries : SearchLibraries) (reranker : Option Reranker) (search : SearchQuery) (now : DateTime) :
    Op (Option (List SearchResult)) := do
  ctx.ensure_open
  let engine ← get
  match Query.resolve_query_scope_ids engine.scope_tree search.scope with
  | none => return some []
  | some scope_ids =>
    let (results,_) ← port (port_hybrid_search ctx.backend libraries search scope_ids now)
    (finish reranker search.text search.limit results : Except MemoryError (Option (List SearchResult)))

/-- A sound output: distinct indices of candidates, with finite scores. -/
structure Sound (num_candidates : Nat) (output : List (Nat × F64)) : Prop where
  distinct : (output.map Prod.fst).Nodup
  inside : ∀ pair ∈ output, pair.1 < num_candidates
  finite : ∀ pair ∈ output, pair.2.is_finite = true

/-- The loop accepts the pairs, or names what is wrong with one of them. -/
theorem validate_pairs_cases (num_candidates : Nat) (seen : List Nat) (output : List (Nat × F64)) :
    validate_pairs num_candidates seen output = .ok () ∧ Sound num_candidates output ∧ (∀ pair ∈ output, pair.1 ∉ seen) ∨
      (∃ why, validate_pairs num_candidates seen output = .error (.Reranker why)) ∧
        ¬ (Sound num_candidates output ∧ ∀ pair ∈ output, pair.1 ∉ seen) := by
  induction output generalizing seen with
  | nil => exact .inl ⟨rfl,⟨List.nodup_nil,by simp,by simp⟩,by simp⟩
  | cons pair rest ih =>
    obtain ⟨idx,score⟩ := pair
    unfold validate_pairs
    by_cases out : idx ≥ num_candidates
    · rw [if_pos out]
      refine .inr ⟨⟨_,rfl⟩,fun sound => ?_⟩
      exact absurd (sound.1.inside _ List.mem_cons_self) (Nat.not_lt.mpr out)
    rw [if_neg out]
    by_cases again : idx ∈ seen
    · rw [if_pos again]
      exact .inr ⟨⟨_,rfl⟩,fun sound => sound.2 _ List.mem_cons_self again⟩
    rw [if_neg again]
    by_cases endless : score.is_finite = false
    · rw [if_pos endless]
      refine .inr ⟨⟨_,rfl⟩,fun sound => ?_⟩
      have finite : score.is_finite = true := sound.1.finite _ List.mem_cons_self
      rw [endless] at finite
      cases finite
    rw [if_neg endless]
    rcases ih (idx :: seen) with ⟨accepted,sound,unseen⟩ | ⟨refused,unsound⟩
    · refine .inl ⟨accepted,⟨?_,?_,?_⟩,?_⟩
      · refine List.nodup_cons.mpr ⟨fun listed => ?_,sound.distinct⟩
        obtain ⟨later,member,same⟩ := List.mem_map.mp listed
        exact unseen later member (same ▸ List.mem_cons_self)
      · intro p member
        rcases List.mem_cons.mp member with rfl | later
        · exact Nat.lt_of_not_ge out
        · exact sound.inside p later
      · intro p member
        rcases List.mem_cons.mp member with rfl | later
        · exact Bool.eq_true_of_not_eq_false endless
        · exact sound.finite p later
      · intro p member
        rcases List.mem_cons.mp member with rfl | later
        · exact again
        · exact fun listed => unseen p later (List.mem_cons_of_mem _ listed)
    · refine .inr ⟨refused,fun ⟨sound,unseen⟩ => unsound ⟨⟨?_,?_,?_⟩,fun p later listed => ?_⟩⟩
      · exact (List.nodup_cons.mp sound.distinct).2
      · exact fun p later => sound.inside p (List.mem_cons_of_mem _ later)
      · exact fun p later => sound.finite p (List.mem_cons_of_mem _ later)
      · rcases List.mem_cons.mp listed with same | before
        · have again : p.1 ∈ rest.map Prod.fst := List.mem_map_of_mem later
          rw [same] at again
          exact (List.nodup_cons.mp sound.distinct).1 again
        · exact unseen p (List.mem_cons_of_mem _ later) before

/-- Distinct indices of candidates are no more than the candidates. -/
theorem Sound.length_le {num_candidates : Nat} {output : List (Nat × F64)} (sound : Sound num_candidates output) :
    output.length ≤ num_candidates := by
  have within : output.map Prod.fst ⊆ List.range num_candidates := by
    intro idx listed
    obtain ⟨pair,member,rfl⟩ := List.mem_map.mp listed
    exact List.mem_range.mpr (sound.inside pair member)
  have few := (sound.distinct.subperm within).length_le
  rwa [List.length_map,List.length_range] at few

/-- Exactly the sound outputs are accepted; the others are an error of the reranker. -/
theorem validate_reranker_output_cases (num_candidates : Nat) (output : List (Nat × F64)) :
    validate_reranker_output num_candidates output = .ok () ∧ Sound num_candidates output ∨
      (∃ why, validate_reranker_output num_candidates output = .error (.Reranker why)) ∧ ¬ Sound num_candidates output := by
  unfold validate_reranker_output
  by_cases long : output.length > num_candidates
  · rw [if_pos long]
    exact .inr ⟨⟨_,rfl⟩,fun sound => absurd sound.length_le (Nat.not_le.mpr long)⟩
  · rw [if_neg long]
    rcases validate_pairs_cases num_candidates [] output with ⟨accepted,sound,_⟩ | ⟨refused,unsound⟩
    · exact .inl ⟨accepted,sound⟩
    · exact .inr ⟨refused,fun sound => unsound ⟨sound,fun _ _ => List.not_mem_nil⟩⟩

/-- The result stands for the candidate at the index, with the score of the pair. -/
def Stands (candidates : List SearchResult) (pair : Nat × F64) (r : SearchResult) : Prop :=
  ∃ c, candidates[pair.1]? = some c ∧ r = { c with score := pair.2 }

/-- While the pairs name candidates that are still there, each once, nothing panics. -/
theorem reconstruct_of_present (candidates : List SearchResult) (places : List (Option SearchResult)) (ranked : List (Nat × F64))
    (distinct : (ranked.map Prod.fst).Nodup) (present : ∀ pair ∈ ranked, ∃ c, candidates[pair.1]? = some c ∧ places[pair.1]? = some (some c)) :
    ∃ results, reconstruct places ranked = some results ∧ List.Forall₂ (Stands candidates) ranked results := by
  induction ranked generalizing places with
  | nil => exact ⟨[],rfl,.nil⟩
  | cons pair rest ih =>
    obtain ⟨idx,score⟩ := pair
    obtain ⟨c,there,place⟩ := present _ List.mem_cons_self
    obtain ⟨first,apart⟩ := List.nodup_cons.mp distinct
    obtain ⟨results,moved,stand⟩ := ih (places.set idx none) apart fun p later => by
      obtain ⟨c',there',place'⟩ := present p (List.mem_cons_of_mem _ later)
      have other : idx ≠ p.1 := by
        rintro rfl
        have again : p.1 ∈ rest.map Prod.fst := List.mem_map_of_mem later
        exact first again
      exact ⟨c',there',by rwa [List.getElem?_set_ne other]⟩
    refine ⟨{ c with score := score } :: results,?_,.cons ⟨c,there,rfl⟩ stand⟩
    unfold reconstruct
    simp only [place,moved,Option.map_some]

theorem present_of_reconstruct {places : List (Option SearchResult)} {ranked : List (Nat × F64)} {results : List SearchResult}
    (moved : reconstruct places ranked = some results) :
    (ranked.map Prod.fst).Nodup ∧ ∀ pair ∈ ranked, ∃ c, places[pair.1]? = some (some c) := by
  induction ranked generalizing places results with
  | nil => exact ⟨List.nodup_nil,by simp⟩
  | cons pair rest ih =>
    obtain ⟨idx,score⟩ := pair
    unfold reconstruct at moved
    split at moved
    · rename_i c place
      obtain ⟨tail,later_moved,rfl⟩ := Option.map_eq_some_iff.mp moved
      obtain ⟨apart,present⟩ := ih later_moved
      have elsewhere : ∀ p ∈ rest, idx ≠ p.1 ∧ ∃ c, places[p.1]? = some (some c) := by
        intro p later
        obtain ⟨c',place'⟩ := present p later
        by_cases same : idx = p.1
        · rw [← same,List.getElem?_set_self'] at place'
          simp [place] at place'
        · rw [List.getElem?_set_ne same] at place'
          exact ⟨same,c',place'⟩
      refine ⟨List.nodup_cons.mpr ⟨fun listed => ?_,apart⟩,fun p member => ?_⟩
      · obtain ⟨p,later,same⟩ := List.mem_map.mp listed
        exact (elsewhere p later).1 same.symm
      · rcases List.mem_cons.mp member with rfl | later
        · exact ⟨c,place⟩
        · exact (elsewhere p later).2
    · cases moved

theorem reconstruct_of_inside {candidates : List SearchResult} {ranked : List (Nat × F64)} (distinct : (ranked.map Prod.fst).Nodup)
    (inside : ∀ pair ∈ ranked, pair.1 < candidates.length) :
    ∃ results, reconstruct (candidates.map some) ranked = some results ∧ List.Forall₂ (Stands candidates) ranked results := by
  refine reconstruct_of_present candidates (candidates.map some) ranked distinct fun pair member => ?_
  have there := List.getElem?_eq_getElem (inside pair member)
  refine ⟨_,there,?_⟩
  rw [List.getElem?_map,there]
  rfl

/-- The move panics exactly at a repeated index or one out of range. -/
theorem reconstruct_iff (candidates : List SearchResult) (ranked : List (Nat × F64)) :
    (∃ results, reconstruct (candidates.map some) ranked = some results) ↔
      (ranked.map Prod.fst).Nodup ∧ ∀ pair ∈ ranked, pair.1 < candidates.length := by
  constructor
  · rintro ⟨results,moved⟩
    obtain ⟨distinct,present⟩ := present_of_reconstruct moved
    refine ⟨distinct,fun pair member => ?_⟩
    obtain ⟨c,place⟩ := present pair member
    obtain ⟨inside,_⟩ := List.getElem?_eq_some_iff.mp place
    rwa [List.length_map] at inside
  · rintro ⟨distinct,inside⟩
    obtain ⟨results,moved,_⟩ := reconstruct_of_inside distinct inside
    exact ⟨results,moved⟩

/-- The first results in the order of the reranker: each stands for the candidate at its
    index, no index comes twice, and the scores are finite. -/
structure Reranked (candidates : List SearchResult) (ranked : List (Nat × F64)) (limit : Nat) (results : List SearchResult) : Prop where
  bounded : results.length ≤ limit
  order : List.Forall₂ (Stands candidates) (ranked.take limit) results
  once : ((ranked.take limit).map Prod.fst).Nodup
  finite : ∀ r ∈ results, r.score.is_finite = true

/-- How a query may end on some candidates and what the reranker returned for them: it fails
    only where the reranker failed or its output is not sound. -/
def Settles (candidates : List SearchResult) (returned : Except MemoryError (List (Nat × F64))) (limit : Nat)
    (outcome : Except MemoryError (Option (List SearchResult))) : Prop :=
  (∃ why, outcome = .error (.Reranker why)) ∧ (∀ ranked, returned = .ok ranked → ¬ Sound candidates.length ranked) ∨
    ∃ ranked results, returned = .ok ranked ∧ outcome = .ok (some results) ∧ Reranked candidates ranked limit results

theorem reranked_take {candidates : List SearchResult} {ranked : List (Nat × F64)} {results : List SearchResult} (sound : Sound candidates.length ranked)
    (order : List.Forall₂ (Stands candidates) ranked results) (limit : Nat) : Reranked candidates ranked limit (results.take limit) := by
  have first := List.forall₂_take limit order
  refine ⟨List.length_take_le _ _,first,sound.distinct.sublist ((List.take_sublist _ _).map _),fun r listed => ?_⟩
  obtain ⟨i,inside,rfl⟩ := List.mem_iff_getElem.mp listed
  have within : i < (ranked.take limit).length := by rwa [first.length_eq]
  obtain ⟨c,_,shape⟩ := first.get within inside
  have scored : (results.take limit)[i].score = (ranked.take limit)[i].2 := congrArg SearchResult.score shape
  rw [scored]
  exact sound.finite _ (List.mem_of_mem_take (List.getElem_mem _))

theorem settles_finish {reranker : Reranker} (documented : reranker.Documented) {text : String} {candidates : List SearchResult}
    {returned : Except MemoryError (List (Nat × F64))} (outcome : reranker.rerank text candidates = .ok returned) (limit : Nat) :
    Settles candidates returned limit (finish (some reranker) (some text) limit candidates) := by
  unfold finish apply_reranker
  cases returned with
  | error e =>
    obtain ⟨why,rfl⟩ := documented text candidates e outcome
    refine .inl ⟨⟨why,?_⟩,nofun⟩
    simp only [outcome,Except.mapError,bind,Except.bind]
  | ok ranked =>
    rcases validate_reranker_output_cases candidates.length ranked with ⟨accepted,sound⟩ | ⟨⟨why,refused⟩,unsound⟩
    · obtain ⟨results,moved,order⟩ := reconstruct_of_inside sound.distinct sound.inside
      refine .inr ⟨ranked,results.take limit,rfl,?_,reranked_take sound order limit⟩
      simp only [outcome,Except.mapError,accepted,moved,bind,Except.bind]
      rfl
    · refine .inl ⟨⟨why,?_⟩,?_⟩
      · simp only [outcome,Except.mapError,refused,bind,Except.bind]
      · rintro _ ⟨⟩
        exact unsound

/-- What a search finds are distinct facts. -/
theorem found_distinct {self : SqliteBackend} {libraries : SearchLibraries} {search : SearchQuery} {scope_ids : Option (List Int)}
    {now : DateTime} {found : List SearchResult × QueryDiagnostics} {s t : Db}
    (committed : Commits (port_hybrid_search self libraries search scope_ids now) s found t) : (found.1.map fun r => r.fact.id).Nodup := by
  obtain ⟨all,loaded,_,results⟩ := port_hybrid_search_fetched committed
  obtain ⟨fts_found,_,_,rest⟩ := commits_bind.mp loaded
  obtain ⟨vec_found,_,_,rest⟩ := commits_bind.mp rest
  obtain ⟨facts_by_id,_,_,last⟩ := commits_bind.mp rest
  obtain ⟨rfl,_⟩ := commits_pure.mp last
  rw [results]
  exact (candidates_distinct _ _ _ _).sublist (((List.take_sublist _ _).trans List.filter_sublist).map _)

/-- Once the search has found its candidates, the query ends as the rest of it does on them. -/
theorem query_run {ctx : MemoryCtx} {libraries : SearchLibraries} {reranker : Option Reranker} {search : SearchQuery} {now : DateTime}
    {scope_ids : Option (List Int)} {s : Engine} {found : List SearchResult × QueryDiagnostics} {db : Db} (opened : ctx.ensure_open = .ok ())
    (resolved : Query.resolve_query_scope_ids s.scope_tree search.scope = some scope_ids)
    (searched : Commits (port_hybrid_search ctx.backend libraries search scope_ids now) s.storage found db) :
    ((query ctx libraries reranker search now).run s).map Prod.fst = finish reranker search.text search.limit found.1 := by
  have first : Commits (liftM ctx.ensure_open : Op Unit) s () s := commits_lift.mpr ⟨opened,rfl⟩
  have second : Commits (get : Op Engine) s s s := commits_get.mpr ⟨rfl,rfl⟩
  have third := commits_port.mpr ⟨db,searched,rfl⟩
  unfold query
  rw [run_bind_of_commits first,run_bind_of_commits second]
  simp only [resolved]
  rw [run_bind_of_commits third]
  cases finish reranker search.text search.limit found.1 <;> rfl

/-- For every list of candidates and every output of the reranker for them, a query fails with
    an error of the reranker or returns, without a panic, at most as many results as asked
    for, the first ones of the order of the reranker, each candidate once and with a finite
    score from the reranker; and the candidates of a search are distinct facts. -/
theorem query_reranks {reranker : Reranker} (documented : reranker.Documented) {text : String} {candidates : List SearchResult}
    {returned : Except MemoryError (List (Nat × F64))} (outcome : reranker.rerank text candidates = .ok returned) :
    (∀ limit, Settles candidates returned limit (finish (some reranker) (some text) limit candidates)) ∧
      ∀ (ctx : MemoryCtx) (libraries : SearchLibraries) (search : SearchQuery) (now : DateTime) (scope_ids : Option (List Int)) (s : Engine)
        (diagnostics : QueryDiagnostics) (db : Db), ctx.ensure_open = .ok () → search.text = some text →
          Query.resolve_query_scope_ids s.scope_tree search.scope = some scope_ids →
            Commits (port_hybrid_search ctx.backend libraries search scope_ids now) s.storage (candidates,diagnostics) db →
              (candidates.map fun r => r.fact.id).Nodup ∧
                Settles candidates returned search.limit (((query ctx libraries (some reranker) search now).run s).map Prod.fst) := by
  refine ⟨settles_finish documented outcome,?_⟩
  intro ctx libraries search now scope_ids s diagnostics db opened asked resolved searched
  refine ⟨found_distinct searched,?_⟩
  rw [query_run opened resolved searched,asked]
  exact settles_finish documented outcome search.limit

end Rerank

namespace Sample
open Rerank

/-- The candidates in the opposite order, the last one with the highest score. -/
def reversing : Reranker where
  rerank _ candidates := .ok (.ok ((List.range candidates.length).reverse.map fun i => (i,F64.ofRat i)))

def deepSearch : SearchQuery := { text := some "a", mode := .Fts, limit := 2, rerank_depth := some 3 }

end Sample

namespace Rerank

theorem query_reranks_sample : ∃ candidates diagnostics db,
    Commits (port_hybrid_search Sample.backend Sample.matching Sample.deepSearch none Sample.moment) Sample.engine.storage (candidates,diagnostics) db ∧
      candidates.length = 3 ∧ (candidates.map fun r => r.fact.id).Nodup ∧
        Settles candidates (.ok ((List.range candidates.length).reverse.map fun i => (i,F64.ofRat i))) 2
          (((query Sample.ctx Sample.matching (some Sample.reversing) Sample.deepSearch Sample.moment).run Sample.engine).map Prod.fst) := by
  have ran : Ends (port_hybrid_search Sample.backend Sample.matching Sample.deepSearch none Sample.moment) Sample.engine.storage
      (fun found _ => found.1.length == 3) = true := by decide +kernel
  obtain ⟨⟨candidates,diagnostics⟩,db,searched,three⟩ := commits_of_ends ran
  have documented : Sample.reversing.Documented := by
    intro text candidates error failed
    cases failed
  obtain ⟨distinct,settles⟩ := (query_reranks documented rfl).2 Sample.ctx Sample.matching Sample.deepSearch Sample.moment none Sample.engine
    diagnostics db rfl rfl rfl searched
  exact ⟨candidates,diagnostics,db,searched,by simpa using three,distinct,settles⟩

end Rerank
end MemoryEngine
