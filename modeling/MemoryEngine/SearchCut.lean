import MemoryEngine.QueryRanking

/-! Whether the search path returns the best of what it fetched. The ranking is cut to
the limit inside the search, before the filters of the query run, so a candidate that
passes them is lost when enough others stand above it. -/

namespace MemoryEngine
open Time KeyedTable Transaction Ranking Search

namespace Search
variable {self : SqliteBackend} {libraries : SearchLibraries} {s t : Db}

/-- A ranking holds what its channels found. -/
theorem ranked_admitted {mode : SearchMode} {filter : FactFilter} {fts vec : List (FactId × F64)} {entry : FactId × F64}
    (lexical : ∀ e ∈ fts, s.Admitted filter e.1) (vector : ∀ e ∈ vec, s.Admitted filter e.1)
    (listed : entry ∈ ranked libraries mode fts vec) : s.Admitted filter entry.1 := by
  cases mode with
  | Fts => exact lexical entry listed
  | Vector => exact vector entry listed
  | Hybrid =>
    obtain ⟨e,either,same⟩ := mem_rrf_merge listed
    rw [← same]
    exact either.elim (lexical e) (vector e)

/-- What a search fetches passes the filter of its channels. -/
theorem fetched_admitted {query : SearchQuery} {scope_ids : Option (List Int)} {all : List SearchResult}
    (loaded : Commits (fetched self libraries query scope_ids) s all t) {r : SearchResult} (listed : r ∈ all) :
    FactFilter.admits ⟨query.fact_type,scope_ids⟩ r.fact = true := by
  obtain ⟨fts_found,m₁,lexical,searching⟩ := commits_bind.mp loaded
  obtain ⟨vec_found,m₂,vector,loading⟩ := commits_bind.mp searching
  obtain ⟨facts_by_id,m₃,gotten,last⟩ := commits_bind.mp loading
  have fts := fts_results_channel lexical
  have unchanged : m₁ = s := fts.1
  subst unchanged
  have vec := vec_results_channel vector
  have unchanged : m₂ = m₁ := vec.1
  subst unchanged
  obtain ⟨_,rfl,_⟩ := commits_get_facts.mp gotten
  obtain ⟨rfl,_⟩ := commits_pure.mp last
  obtain ⟨row,held⟩ := List.mem_filter.mp (mem_candidates listed)
  obtain ⟨entry,member,same⟩ := List.mem_map.mp (List.contains_iff_mem.mp held)
  refine Tables.Admitted.of_row ?_ row
  rw [← same]
  exact ranked_admitted fts.2 vec.2 member

end Search

namespace Query
variable {self : SqliteBackend} {libraries : SearchLibraries} {s t : Db}

/-- The instant by which the search itself drops facts. -/
def search_cutoff (query : MemoryQuery) (now : DateTime) : DateTime := if query.has_period then DateTime.MAX_UTC else query.valid_at.getD now

/-- The fact of the result passes all filters of the query. -/
def satisfying (query : MemoryQuery) (scope_ids : Option (List Int)) (now : DateTime) (r : SearchResult) : Bool :=
  decide (query.Satisfied scope_ids now r.fact)

/-- The fact of the result is valid at the instant by which the search drops facts. -/
def inTime (query : MemoryQuery) (now : DateTime) (r : SearchResult) : Bool := passes_temporal_cutoff r.fact (search_cutoff query now)

theorem search_query_cutoff {query : MemoryQuery} (valid : validate_memory_query query = .ok ()) (limit : Nat) (now : DateTime) :
    (search_query query (effective_cutoff query now) limit).valid_at.getD now = search_cutoff query now := by
  by_cases timed : query.has_period = true
  · simp [search_query,period_cutoff valid timed now,search_cutoff,timed]
  · have untimed : query.has_period = false := Bool.eq_false_iff.mpr timed
    cases dated : query.valid_at with
    | none => simp [search_query,effective_cutoff,search_cutoff,untimed,dated]
    | some at_ => simp [search_query,effective_cutoff,search_cutoff,untimed,dated]

/-- On what the search keeps, the filters that run after it decide. -/
theorem wanted_eq_satisfying {query : MemoryQuery} (valid : validate_memory_query query = .ok ()) {scope_ids : Option (List Int)}
    {now : DateTime} {r : SearchResult} (admitted : FactFilter.admits ⟨query.fact_type,scope_ids⟩ r.fact = true)
    (kept : inTime query now r = true) : wanted query r = satisfying query scope_ids now r := by
  obtain ⟨_,typed,placed⟩ := FactFilter.admits_iff.mp admitted
  have held := passes_temporal_cutoff_iff.mp kept
  have timely : query.Timely now r.fact ↔ ∀ bounds ∈ period query, r.fact.Overlaps bounds.1 bounds.2 := by
    rw [timely_iff valid]
    refine ⟨And.right,fun overlapping => ⟨fun cutoff set => ?_,overlapping⟩⟩
    have same := search_query_cutoff valid 0 now
    have cut : effective_cutoff query now = some cutoff := set
    rw [search_query,cut] at same
    rw [← same] at held
    exact held
  rw [Bool.eq_iff_iff,wanted,satisfying,decide_eq_true_iff]
  simp only [Bool.and_eq_true,Option.all_eq_true,fact_overlaps_period_iff,Bool.or_eq_true,Bool.not_eq_true']
  constructor
  · rintro ⟨⟨overlapping,important⟩,pinned⟩
    refine ⟨placed,typed,timely.mpr overlapping,important,fun only => ?_⟩
    rcases pinned with unset | held
    · rw [unset] at only
      cases only
    · exact held
  · intro satisfied
    refine ⟨⟨timely.mp satisfied.timely,satisfied.important⟩,?_⟩
    cases only : query.pinned_only with
    | false => exact .inl rfl
    | true => exact .inr (satisfied.pinned only)

/-- Where enough candidates pass the filters of the query, the search path returns the best
    of them exactly when each of these is valid at the cutoff of the search and stands among
    the first candidates that are. -/
theorem searched_best_iff {query : MemoryQuery} (valid : validate_memory_query query = .ok ()) {scope_ids : Option (List Int)}
    {limit : Nat} {now : DateTime} {response : QueryResponse}
    (searched : Commits (execute_search_path self libraries query scope_ids (effective_cutoff query now) limit now) s response t) :
    ∃ all, Commits (fetched self libraries (search_query query (effective_cutoff query now) limit) scope_ids) s all s ∧
      ((limit ≤ all.countP (satisfying query scope_ids now) →
          response.results.length = limit ∧ response.results = (all.filter (satisfying query scope_ids now)).take limit) ↔
        (limit ≤ all.countP (satisfying query scope_ids now) → ∀ before r after, all = before ++ r :: after →
          satisfying query scope_ids now r = true → before.countP (satisfying query scope_ids now) < limit →
            inTime query now r = true ∧ before.countP (inTime query now) < limit)) := by
  obtain ⟨found,m,ran,probing⟩ := commits_bind.mp searched
  obtain ⟨expired_matches,m',probed,last⟩ := commits_bind.mp probing
  obtain ⟨rfl,_⟩ := commits_pure.mp last
  obtain ⟨all,loaded,readable,results⟩ := port_hybrid_search_fetched ran
  refine ⟨all,loaded,?_⟩
  have target : effective_target (search_query query (effective_cutoff query now) limit) = limit := by
    simp [effective_target,search_query]
  rw [search_query_cutoff valid,target] at results
  have screened : (post_filter query found.1).take limit = ((all.filter (inTime query now)).take limit).filter (satisfying query scope_ids now) := by
    rw [post_filter_eq,List.take_of_length_le]
    · rw [results]
      refine List.filter_congr fun r listed => ?_
      obtain ⟨member,kept⟩ := List.mem_filter.mp (List.mem_of_mem_take listed)
      exact wanted_eq_satisfying valid (fetched_admitted loaded member) kept
    · refine (List.length_filter_le _ _).trans ?_
      rw [results]
      exact List.length_take_le _ _
  show (_ → ((post_filter query found.1).take limit).length = limit ∧ (post_filter query found.1).take limit = _) ↔ _
  rw [screened]
  refine imp_congr_right fun enough => ?_
  rw [← filter_take_filter_iff le_rfl]
  refine ⟨And.right,fun same => ⟨?_,same⟩⟩
  rw [same,List.length_take,← List.countP_eq_length_filter]
  omega

end Query
namespace Sample

/-- A store with a fact and a pinned one after it. -/
def pinnedSecond (test : Db → Bool) : Bool :=
  Ends (do
    let _ ← FactStore.insert backend (newFact "a")
    let _ ← FactStore.insert backend { newFact "b" with is_pinned := true } : Sql Unit) Db.fresh fun _ s => test s

def onePinned : MemoryQuery := { text := some "a", pinned_only := true }

def searchPinned : Sql QueryResponse :=
  Query.execute_search_path backend matching onePinned none (Query.effective_cutoff onePinned moment) 1 moment

def fetchPinned : Sql (List SearchResult) :=
  fetched backend matching (Query.search_query onePinned (Query.effective_cutoff onePinned moment) 1) none

end Sample

theorem searched_best_sample : ∃ s t response all, Commits Sample.searchPinned s response t ∧ Commits Sample.fetchPinned s all s ∧
    ((1 ≤ all.countP (Query.satisfying Sample.onePinned none Sample.moment) →
        response.results.length = 1 ∧ response.results = (all.filter (Query.satisfying Sample.onePinned none Sample.moment)).take 1) ↔
      (1 ≤ all.countP (Query.satisfying Sample.onePinned none Sample.moment) → ∀ before r after, all = before ++ r :: after →
        Query.satisfying Sample.onePinned none Sample.moment r = true →
          before.countP (Query.satisfying Sample.onePinned none Sample.moment) < 1 →
            Query.inTime Sample.onePinned Sample.moment r = true ∧ before.countP (Query.inTime Sample.onePinned Sample.moment) < 1)) := by
  have ran : Sample.pinnedSecond (fun s => Ends Sample.searchPinned s fun _ _ => true) = true := by decide +kernel
  obtain ⟨_,s,_,ran⟩ := commits_of_ends ran
  obtain ⟨response,t,searched,_⟩ := commits_of_ends ran
  obtain ⟨all,loaded,exact⟩ := Query.searched_best_iff rfl searched
  exact ⟨s,t,response,all,searched,loaded,exact⟩

/-- One fact that is not pinned hides the pinned one that was fetched with it. -/
theorem pinned_candidate_cut : ¬ ∀ (self : SqliteBackend) (libraries : SearchLibraries) (query : MemoryQuery) (scope_ids : Option (List Int))
    (limit : Nat) (now : DateTime) (s t u : Db) (response : QueryResponse) (all : List SearchResult),
    Query.validate_memory_query query = .ok () → query.has_search = true →
      Commits (Query.execute_search_path self libraries query scope_ids (Query.effective_cutoff query now) limit now) s response t →
        Commits (fetched self libraries (Query.search_query query (Query.effective_cutoff query now) limit) scope_ids) s all u →
          limit ≤ all.countP (Query.satisfying query scope_ids now) →
            response.results.length = limit ∧ response.results = (all.filter (Query.satisfying query scope_ids now)).take limit := by
  intro claim
  have ran : Sample.pinnedSecond (fun s => Ends Sample.searchPinned s fun response _ => Ends Sample.fetchPinned s fun all _ =>
      response.results.isEmpty && decide (1 ≤ all.countP (Query.satisfying Sample.onePinned none Sample.moment))) = true := by decide +kernel
  obtain ⟨_,s,_,ran⟩ := commits_of_ends ran
  obtain ⟨response,t,searched,ran⟩ := commits_of_ends ran
  obtain ⟨all,u,loaded,ran⟩ := commits_of_ends ran
  obtain ⟨none,enough⟩ := Bool.and_eq_true_iff.mp ran
  have length := (claim _ _ _ _ _ _ _ _ _ _ _ rfl rfl searched loaded (of_decide_eq_true enough)).1
  rw [List.isEmpty_iff.mp none] at length
  cases length

end MemoryEngine
