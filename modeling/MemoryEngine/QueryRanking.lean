import MemoryEngine.QueryScreen

/-! Which facts a query returns, among all that it could. The search path drops facts
by a cutoff and cuts the ranking before the filters of the query run, and the store
path reads a bounded number of rows before it filters them. -/

namespace MemoryEngine
open Time KeyedTable Transaction Ranking Search

namespace Search
variable (self : SqliteBackend) (libraries : SearchLibraries)

/-- Every ranked fact that loads, in the order of the ranking. -/
def candidates (fts_ids vec_ids : List FactId) : List (FactId × F64) → List Fact → List SearchResult
  | [],_ => []
  | (id,score) :: ranked,facts_by_id =>
    match facts_by_id.find? (fun f => f.id == id) with
    | none => candidates fts_ids vec_ids ranked facts_by_id
    | some fact => ⟨fact,score,match_type fts_ids vec_ids id⟩ :: candidates fts_ids vec_ids ranked (facts_by_id.filter (fun f => f.id ≠ id))

/-- What a search fetches, before the cutoff and the limit. -/
def fetched (query : SearchQuery) (scope_ids : Option (List Int)) : Sql (List SearchResult) := do
  let overfetch := tripled (effective_target query)
  let filter : FactFilter := ⟨query.fact_type,scope_ids⟩
  let fts ← fts_results libraries query filter overfetch
  let vec ← vec_results self libraries query filter overfetch
  let ranked := ranked libraries query.mode fts vec
  let facts_by_id ← get_facts self (ranked.map Prod.fst)
  return candidates (fts.map Prod.fst) (vec.map Prod.fst) ranked facts_by_id

variable {self libraries}

/-- The walk takes the first candidates that are valid at the cutoff. -/
theorem collect_eq (cutoff : DateTime) (effective_limit : Nat) (fts_ids vec_ids : List FactId) (ranked : List (FactId × F64))
    (facts_by_id : List Fact) (results : List SearchResult) :
    collect cutoff effective_limit fts_ids vec_ids ranked facts_by_id results = results ++
      ((candidates fts_ids vec_ids ranked facts_by_id).filter (fun r => passes_temporal_cutoff r.fact cutoff)).take
        (effective_limit - results.length) := by
  induction ranked generalizing facts_by_id results with
  | nil => simp [collect,candidates]
  | cons head rest ih =>
    obtain ⟨id,score⟩ := head
    unfold collect candidates
    by_cases full : effective_limit ≤ results.length
    · have none_left : effective_limit - results.length = 0 := by omega
      simp [full,none_left]
    · rw [if_neg full]
      cases found : facts_by_id.find? (fun f => f.id == id) with
      | none => exact ih facts_by_id results
      | some fact =>
        dsimp only
        by_cases passes : passes_temporal_cutoff fact cutoff = true
        · have room : effective_limit - results.length = effective_limit - (results.length + 1) + 1 := by omega
          rw [if_pos passes,ih]
          simp [passes,room]
        · rw [if_neg passes,ih]
          simp [passes]

theorem mem_candidates {fts_ids vec_ids : List FactId} {ranked : List (FactId × F64)} {facts_by_id : List Fact} {r : SearchResult}
    (listed : r ∈ candidates fts_ids vec_ids ranked facts_by_id) : r.fact ∈ facts_by_id := by
  induction ranked generalizing facts_by_id with
  | nil => cases listed
  | cons head rest ih =>
    obtain ⟨id,score⟩ := head
    unfold candidates at listed
    split at listed
    · exact ih listed
    · rename_i fact found
      rcases List.mem_cons.mp listed with rfl | later
      · exact List.mem_of_find?_eq_some found
      · exact (List.mem_filter.mp (ih later)).1

/-- Each loaded fact stands in one result. -/
theorem candidates_distinct (fts_ids vec_ids : List FactId) (ranked : List (FactId × F64)) (facts_by_id : List Fact) :
    ((candidates fts_ids vec_ids ranked facts_by_id).map fun r => r.fact.id).Nodup := by
  induction ranked generalizing facts_by_id with
  | nil => exact List.nodup_nil
  | cons head rest ih =>
    obtain ⟨id,score⟩ := head
    unfold candidates
    split
    · exact ih facts_by_id
    · rename_i fact found
      refine List.nodup_cons.mpr ⟨fun listed => ?_,ih _⟩
      obtain ⟨r,later,same⟩ := List.mem_map.mp listed
      have named : fact.id = id := by simpa using List.find?_some found
      have other : r.fact.id ≠ id := by simpa using (List.mem_filter.mp (mem_candidates later)).2
      exact other (same.trans named)

/-- A search returns the first of the fetched results that are valid at its cutoff. -/
theorem port_hybrid_search_fetched {query : SearchQuery} {scope_ids : Option (List Int)} {now : DateTime}
    {found : List SearchResult × QueryDiagnostics} {s t : Db}
    (committed : Commits (port_hybrid_search self libraries query scope_ids now) s found t) :
    ∃ all, Commits (fetched self libraries query scope_ids) s all s ∧ (∀ r ∈ all, r.fact.Readable self.embed_dim) ∧
      found.1 = (all.filter (fun r => passes_temporal_cutoff r.fact (query.valid_at.getD now))).take (effective_target query) := by
  obtain ⟨fts_found,m₁,lexical,searching⟩ := commits_bind.mp committed
  obtain ⟨vec_found,m₂,vector,loading⟩ := commits_bind.mp searching
  obtain ⟨facts_by_id,m₃,loaded,last⟩ := commits_bind.mp loading
  have unchanged : m₁ = s := (fts_results_channel lexical).1
  subst unchanged
  have unchanged : m₂ = m₁ := (vec_results_channel vector).1
  subst unchanged
  obtain ⟨same,_,readable⟩ := commits_get_facts.mp loaded
  subst same
  obtain ⟨rfl,rfl⟩ := commits_pure.mp last
  refine ⟨candidates (fts_found.map Prod.fst) (vec_found.map Prod.fst) (ranked libraries query.mode fts_found vec_found) facts_by_id,
    ?_,fun r listed => readable r.fact (mem_candidates listed),?_⟩
  · exact commits_bind.mpr ⟨_,_,lexical,commits_bind.mpr ⟨_,_,vector,commits_bind.mpr ⟨_,_,loaded,commits_pure.mpr ⟨rfl,rfl⟩⟩⟩⟩
  · exact collect_eq _ _ _ _ _ _ []

/-- Only a fact with no end passes the latest cutoff. -/
theorem passes_latest_cutoff {dim : Nat} {f : Fact} (readable : f.Readable dim) :
    passes_temporal_cutoff f DateTime.MAX_UTC = f.t_invalid.isNone := by
  obtain ⟨_,_,_,_,begins,ends,_⟩ := readable
  have before : ∀ t : DateTime, t.Readable → t < DateTime.MAX_UTC := fun t read => by
    refine (lt_iff t DateTime.MAX_UTC).mpr (.inl ?_)
    have bounded := read.2
    change t.year < 262142
    omega
  have begun : f.t_valid.all (fun t_valid => !decide (t_valid > DateTime.MAX_UTC)) = true :=
    Option.all_eq_true _ _ |>.mpr fun t set => by simpa using (before t (begins t set)).le
  unfold passes_temporal_cutoff
  rw [begun,Bool.true_and]
  cases set : f.t_invalid with
  | none => rfl
  | some t => simpa using (before t (ends t set)).le

end Search

namespace Query
variable {self : SqliteBackend} {libraries : SearchLibraries} {s t : Db}

/-- The result passes the filters that run after the search. -/
def wanted (query : MemoryQuery) (r : SearchResult) : Bool :=
  (period query).all (fun bounds => fact_overlaps_period r.fact bounds.1 bounds.2) &&
    query.min_importance_score.all (fun min_score => min_score.le (.num r.fact.importance_score)) && (!query.pinned_only || r.fact.is_pinned)

theorem post_filter_eq (query : MemoryQuery) (results : List SearchResult) : post_filter query results = results.filter (wanted query) := by
  have retained : ∀ {α : Type} (set : Option α) (passes : α → Fact → Bool) (results : List SearchResult),
      retainIf set passes results = results.filter fun r => set.all fun value => passes value r.fact := by
    intro α set passes results
    cases set <;> simp [retainIf]
  unfold post_filter wanted
  simp only [retained,List.filter_filter]
  cases query.pinned_only <;> simp [Bool.and_comm]

/-- A period query with a search term returns the first fetched candidates that pass
    its filters exactly when these have no end and each stands among the first
    candidates with no end. -/
theorem period_results_iff {query : MemoryQuery} (valid : validate_memory_query query = .ok ()) (timed : query.has_period = true)
    {scope_ids : Option (List Int)} {limit : Nat} {now : DateTime} {response : QueryResponse}
    (searched : Commits (execute_search_path self libraries query scope_ids (effective_cutoff query now) limit now) s response t) :
    ∃ all, Commits (fetched self libraries (search_query query (effective_cutoff query now) limit) scope_ids) s all s ∧
      (response.results = (all.filter (wanted query)).take limit ↔
        ∀ before r after, all = before ++ r :: after → wanted query r = true → before.countP (wanted query) < limit →
          r.fact.t_invalid = none ∧ before.countP (fun r => r.fact.t_invalid.isNone) < limit) := by
  obtain ⟨found,m,ran,probing⟩ := commits_bind.mp searched
  obtain ⟨expired_matches,m',probed,last⟩ := commits_bind.mp probing
  obtain ⟨rfl,_⟩ := commits_pure.mp last
  obtain ⟨all,loaded,readable,results⟩ := port_hybrid_search_fetched ran
  refine ⟨all,loaded,?_⟩
  have cutoff : (search_query query (effective_cutoff query now) limit).valid_at = some DateTime.MAX_UTC := by
    simp [search_query,period_cutoff valid timed now,timed]
  have target : effective_target (search_query query (effective_cutoff query now) limit) = limit := by
    simp [effective_target,search_query]
  have endless : all.filter (fun r => passes_temporal_cutoff r.fact DateTime.MAX_UTC) = all.filter (fun r => r.fact.t_invalid.isNone) :=
    List.filter_congr fun r listed => passes_latest_cutoff (readable r listed)
  rw [cutoff,target,Option.getD_some,endless] at results
  -- the results are cut once, so the last cut takes nothing away
  have short : ((found.1.filter (wanted query)).take limit) = found.1.filter (wanted query) := by
    refine List.take_of_length_le (List.length_filter_le _ _ |>.trans ?_)
    rw [results]
    exact List.length_take_le _ _
  change (post_filter query found.1).take limit = _ ↔ _
  rw [post_filter_eq,short,results]
  simp only [← Option.isNone_iff_eq_none]
  exact filter_take_filter_iff le_rfl

end Query
namespace Sample

/-- Every row matches every text. -/
def matching : SearchLibraries := { libraries with bm25 := fun _ _ _ => some 0 }

/-- A store whose fourth fact ends in a year. -/
def ending (test : Db → Bool) : Bool :=
  Ends (FactStore.insert backend { newFact "d" with t_invalid := some { moment with year := 2027 } }) engine.storage fun _ s => test s

def thisYear : MemoryQuery := { text := some "d", period_start := some moment, period_end := some { moment with year := 2027 } }

def searchThisYear : Sql QueryResponse :=
  Query.execute_search_path backend matching thisYear none (Query.effective_cutoff thisYear moment) 50 moment

def fetchThisYear : Sql (List SearchResult) :=
  fetched backend matching (Query.search_query thisYear (Query.effective_cutoff thisYear moment) 50) none

end Sample

theorem period_results_sample : ∃ s t response all, Commits Sample.searchThisYear s response t ∧ Commits Sample.fetchThisYear s all s ∧
    (response.results = (all.filter (Query.wanted Sample.thisYear)).take 50 ↔
      ∀ before r after, all = before ++ r :: after → Query.wanted Sample.thisYear r = true → before.countP (Query.wanted Sample.thisYear) < 50 →
        r.fact.t_invalid = none ∧ before.countP (fun r => r.fact.t_invalid.isNone) < 50) := by
  have ran : Sample.ending (fun s => Ends Sample.searchThisYear s fun _ _ => true) = true := by decide +kernel
  obtain ⟨_,s,_,ran⟩ := commits_of_ends ran
  obtain ⟨response,t,searched,_⟩ := commits_of_ends ran
  obtain ⟨all,loaded,exact⟩ := Query.period_results_iff rfl rfl searched
  exact ⟨s,t,response,all,searched,loaded,exact⟩

/-- A fact valid in the whole period is fetched and not returned, for it ends later. -/
theorem ending_fact_dropped : ¬ ∀ (self : SqliteBackend) (libraries : SearchLibraries) (query : MemoryQuery) (scope_ids : Option (List Int))
    (limit : Nat) (now : DateTime) (s t u : Db) (response : QueryResponse) (all : List SearchResult),
    Query.validate_memory_query query = .ok () → query.has_search = true → query.has_period = true →
      Commits (Query.execute_search_path self libraries query scope_ids (Query.effective_cutoff query now) limit now) s response t →
        Commits (fetched self libraries (Query.search_query query (Query.effective_cutoff query now) limit) scope_ids) s all u →
          response.results = (all.filter (Query.wanted query)).take limit := by
  intro claim
  have ran : Sample.ending (fun s => Ends Sample.searchThisYear s fun response _ => Ends Sample.fetchThisYear s fun all _ =>
      decide (response.results.length ≠ ((all.filter (Query.wanted Sample.thisYear)).take 50).length)) = true := by decide +kernel
  obtain ⟨_,s,_,ran⟩ := commits_of_ends ran
  obtain ⟨response,t,searched,ran⟩ := commits_of_ends ran
  obtain ⟨all,u,loaded,apart⟩ := commits_of_ends ran
  exact of_decide_eq_true apart (congrArg List.length (claim _ _ _ _ _ _ _ _ _ _ _ rfl rfl rfl searched loaded))

instance (query : MemoryQuery) (scope_ids : Option (List Int)) (now : DateTime) (f : Fact) : Decidable (query.Satisfied scope_ids now f) :=
  decidable_of_iff ((∀ ids ∈ scope_ids, f.scope_id ∈ ids) ∧ (∀ ft ∈ query.fact_type, f.fact_type = ft) ∧ query.Timely now f ∧
      (∀ min_score ∈ query.min_importance_score, min_score.le (.num f.importance_score) = true) ∧
        (query.pinned_only = true → f.is_pinned = true))
    ⟨fun all => ⟨all.1,all.2.1,all.2.2.1,all.2.2.2.1,all.2.2.2.2⟩,
      fun all => ⟨all.placed,all.typed,all.timely,all.important,all.pinned⟩⟩

/-- The active facts that pass every filter of the query. -/
def MemoryQuery.matching (query : MemoryQuery) (scope_ids : Option (List Int)) (now : DateTime) (t : Tables) : List Fact :=
  t.facts.rows.filter fun f => f.t_expired.isNone && decide (query.Satisfied scope_ids now f)

namespace Query
variable (libraries : SearchLibraries) (query : MemoryQuery) (scope_ids : Option (List Int)) (limit : Nat) (now : DateTime) (t : Tables)

/-- The row can be in the listing by importance. -/
def listable (f : Fact) : Bool :=
  f.t_expired.isNone && (query.min_importance_score.getD (F64.ofRat 0)).le (.num f.importance_score) && FactStore.inScopes (scope_ids.getD []) f

/-- The rows that the store path reads without a period: the first of the listing, up
    to three times the limit. -/
def reached : List Fact :=
  (descending Fact.importance_score ((libraries.rows.order t.facts.rows).filter (listable query scope_ids))).take (limit_i64 (tripled limit))

/-- No match is lost. Without a period, a match is among the rows that are read or
    enough of these match. With one, a row that the texts place in the period and
    that can be shown lies in it, and for a match that they place outside enough rows
    of no lower score are admitted. -/
structure Complete : Prop where
  untimed : period query = none → ∀ f ∈ query.matching scope_ids now t,
    f ∈ reached libraries query scope_ids limit t ∨
      limit ≤ (reached libraries query scope_ids limit t).countP (fun g => decide (query.Satisfied scope_ids now g))
  placed : ∀ start stop, period query = some (start,stop) → ∀ f ∈ t.facts.rows, admitsByText query scope_ids start stop f = true →
    t.facts.rows.countP (fun g => admitsByText query scope_ids start stop g && decide (listingKey f < listingKey g)) < limit →
      f.Overlaps start stop
  timed : ∀ start stop, period query = some (start,stop) → ∀ f ∈ query.matching scope_ids now t,
    FactStore.overlapsByText start stop f = false →
      limit ≤ t.facts.rows.countP (fun g => admitsByText query scope_ids start stop g && decide (f.importance_score ≤ g.importance_score))

variable {libraries query scope_ids limit now t}

theorem mem_matching {f : Fact} : f ∈ query.matching scope_ids now t ↔
    f ∈ t.facts.rows ∧ f.t_expired = none ∧ query.Satisfied scope_ids now f := by
  simp [MemoryQuery.matching]

theorem matching_nodup : (query.matching scope_ids now t).Nodup := (t.facts.keys_nodup.of_map _).filter _

/-- A score below a bound is under every score that meets it. -/
theorem le_of_bound {bound : F64} {x y : SqlReal} (under : bound.le (.num x) ≠ true) (meets : bound.le (.num y) = true) : x ≤ y := by
  cases bound with
  | nan => cases meets
  | num a =>
    have low : ¬ a ≤ x := by simpa [F64.le] using under
    have high : a ≤ y := by simpa [F64.le] using meets
    exact (not_le.mp low).le.trans high

theorem mem_reached {f : Fact} (read : f ∈ reached libraries query scope_ids limit t) :
    f ∈ t.facts.rows ∧ listable query scope_ids f = true := by
  obtain ⟨ordered,admitted⟩ := List.mem_filter.mp (mem_descending.mp (List.mem_of_mem_take read))
  exact ⟨(libraries.rows.perm _).mem_iff.mp ordered,admitted⟩

/-- A match that is not read scores no higher than any row that is. -/
theorem le_reached {f g : Fact} (resolved : scope_ids ≠ some []) (member : f ∈ query.matching scope_ids now t)
    (missed : f ∉ reached libraries query scope_ids limit t) (read : g ∈ reached libraries query scope_ids limit t) :
    f.importance_score ≤ g.importance_score := by
  obtain ⟨row,active,satisfied⟩ := mem_matching.mp member
  by_cases high : (query.min_importance_score.getD (F64.ofRat 0)).le (.num f.importance_score) = true
  · -- the match is listed behind the rows that are read
    have admitted : listable query scope_ids f = true := by
      simp [listable,active,high,(inScopes_iff resolved).mpr satisfied.placed]
    have listed : f ∈ descending Fact.importance_score ((libraries.rows.order t.facts.rows).filter (listable query scope_ids)) :=
      mem_descending.mpr (List.mem_filter.mpr ⟨(libraries.rows.perm _).mem_iff.mpr row,admitted⟩)
    have sorted := descending_sorted Fact.importance_score ((libraries.rows.order t.facts.rows).filter (listable query scope_ids))
    rw [← List.take_append_drop (limit_i64 (tripled limit)) (descending _ _)] at listed sorted
    have behind := (List.mem_append.mp listed).resolve_left missed
    exact (List.pairwise_append.mp sorted).2.2 g read f behind
  · have meets := (mem_reached read).2
    simp only [listable,Bool.and_eq_true] at meets
    exact le_of_bound high meets.1.2

/-- Without a period the store path returns the first matches among the rows it reads. -/
theorem store_untimed_listed {self : SqliteBackend} (valid : validate_memory_query query = .ok ()) (resolved : scope_ids ≠ some [])
    (untimed : period query = none) {s s' : Db} {response : QueryResponse}
    (committed : Commits (execute_store_path self libraries query scope_ids (effective_cutoff query now) limit) s response s') :
    response.results = (((reached libraries query scope_ids limit s.toTables).filter
      (fun f => decide (query.Satisfied scope_ids now f))).take limit).map fact_to_search_result := by
  obtain ⟨facts,fetched,listed⟩ := commits_execute_store_path committed
  obtain ⟨rfl,_,shape⟩ := commits_fetch_candidates fetched
  rw [untimed] at shape
  have read : facts = reached libraries query scope_ids limit s'.toTables := by
    rw [shape]
    unfold reached listable
    simp only [List.contains_nil,Bool.not_false,Bool.and_true]
  have unset : query.has_period = false := by
    have whole := (validated_period valid).1
    rw [untimed] at whole
    simpa using whole
  have passes : facts.filter (store_filter query (effective_cutoff query now)) =
      facts.filter (fun f => decide (query.Satisfied scope_ids now f)) := by
    refine List.filter_congr fun f inside => ?_
    obtain ⟨_,admitted⟩ := mem_reached (read ▸ inside)
    simp only [listable,Bool.and_eq_true] at admitted
    refine Bool.eq_iff_iff.mpr ?_
    rw [store_filter_iff,decide_eq_true_iff]
    constructor
    · rintro ⟨valid_at,typed,_,pinned⟩
      refine ⟨(inScopes_iff resolved).mp admitted.2,typed unset,(timely_iff valid).mpr ⟨valid_at,?_⟩,fun min_score set => ?_,pinned⟩
      · rw [untimed]
        exact fun bounds none_set => by cases none_set
      · have important := admitted.1.2
        rwa [show query.min_importance_score = some min_score from set] at important
    · intro satisfied
      exact ⟨((timely_iff valid).mp satisfied.timely).1,fun _ => satisfied.typed,fun _ => satisfied.important,satisfied.pinned⟩
  have sorted : (facts.filter (fun f => decide (query.Satisfied scope_ids now f))).Pairwise
      (fun a b => b.importance_score ≤ a.importance_score) := by
    rw [shape]
    exact ((descending_sorted Fact.importance_score _).sublist (List.take_sublist _ _)).filter _
  rw [listed,passes,← read]
  exact congrArg (fun ordered => (ordered.take limit).map fact_to_search_result) (List.Pairwise.insertionSort_eq sorted)

theorem shown_facts (facts : List Fact) : (facts.map fact_to_search_result).map SearchResult.fact = facts := by
  rw [List.map_map]
  exact List.map_id facts

/-- Among the rows that the texts admit, those in the period are the matches. -/
theorem mem_matching_of_text (valid : validate_memory_query query = .ok ()) (resolved : scope_ids ≠ some []) {start stop : DateTime}
    (bounds : period query = some (start,stop)) {f : Fact} (row : f ∈ t.facts.rows) :
    f ∈ query.matching scope_ids now t ∧ FactStore.overlapsByText start stop f = true ↔
      admitsByText query scope_ids start stop f = true ∧ f.Overlaps start stop := by
  rw [mem_matching,admitsByText_iff resolved]
  constructor
  · rintro ⟨⟨_,active,satisfied⟩,texts⟩
    exact ⟨⟨active,texts,satisfied.placed,satisfied.typed,satisfied.important,satisfied.pinned⟩,
      ((timely_iff valid).mp satisfied.timely).2 (start,stop) bounds⟩
  · rintro ⟨⟨active,texts,placed,typed,important,pinned⟩,overlaps⟩
    have timed : query.has_period = true := (validated_period valid).1.mpr (by rw [bounds]; rfl)
    refine ⟨⟨row,active,placed,typed,(timely_iff valid).mpr ⟨?_,?_⟩,important,pinned⟩,texts⟩
    · rw [period_cutoff valid timed now]
      exact fun cutoff set => by cases set
    · rw [bounds]
      exact fun found set => by cases set; exact overlaps

variable (libraries query scope_ids limit now t) in
/-- Without a period no match is lost when enough of the rows that are read match. -/
theorem untimed_complete_iff (untimed : period query = none) : Complete libraries query scope_ids limit now t ↔
    ∀ f ∈ query.matching scope_ids now t, f ∈ reached libraries query scope_ids limit t ∨
      limit ≤ (reached libraries query scope_ids limit t).countP (fun g => decide (query.Satisfied scope_ids now g)) := by
  constructor
  · exact fun complete => complete.untimed untimed
  · intro all
    refine ⟨fun _ => all,fun start stop bounds => ?_,fun start stop bounds => ?_⟩
    · rw [untimed] at bounds
      cases bounds
    · rw [untimed] at bounds
      cases bounds

variable (libraries query scope_ids limit now t) in
theorem timed_complete_iff {start stop : DateTime} (bounds : period query = some (start,stop)) : Complete libraries query scope_ids limit now t ↔
    (∀ f ∈ t.facts.rows, admitsByText query scope_ids start stop f = true →
      t.facts.rows.countP (fun g => admitsByText query scope_ids start stop g && decide (listingKey f < listingKey g)) < limit →
        f.Overlaps start stop) ∧
    ∀ f ∈ query.matching scope_ids now t, FactStore.overlapsByText start stop f = false →
      limit ≤ t.facts.rows.countP (fun g => admitsByText query scope_ids start stop g && decide (f.importance_score ≤ g.importance_score)) := by
  constructor
  · exact fun complete => ⟨complete.placed start stop bounds,complete.timed start stop bounds⟩
  · rintro ⟨placed,timed⟩
    refine ⟨fun untimed => ?_,fun start' stop' bounds' => ?_,fun start' stop' bounds' => ?_⟩
    · rw [bounds] at untimed
      cases untimed
    · cases bounds.symm.trans bounds'
      exact placed
    · cases bounds.symm.trans bounds'
      exact timed

theorem reached_sorted : (reached libraries query scope_ids limit t).Pairwise (fun a b => b.importance_score ≤ a.importance_score) :=
  (descending_sorted Fact.importance_score _).sublist (List.take_sublist _ _)

theorem reached_nodup : (reached libraries query scope_ids limit t).Nodup := by
  refine List.Nodup.sublist (List.take_sublist _ _) ((descending_perm _ _).nodup_iff.mpr (List.Nodup.filter _ ?_))
  exact (libraries.rows.perm _).nodup_iff.mpr (t.facts.keys_nodup.of_map _)

/-- The first matches among the rows that are read are the best of all, unless they
    are too few and another match is not read. -/
theorem untimed_top_iff (resolved : scope_ids ≠ some []) :
    Top Fact.importance_score limit (query.matching scope_ids now t)
        (((reached libraries query scope_ids limit t).filter (fun f => decide (query.Satisfied scope_ids now f))).take limit) ↔
      ∀ f ∈ query.matching scope_ids now t, f ∈ reached libraries query scope_ids limit t ∨
        limit ≤ (reached libraries query scope_ids limit t).countP (fun g => decide (query.Satisfied scope_ids now g)) := by
  rw [top_take_iff (reached_sorted.filter _) (reached_nodup.filter _) matching_nodup]
  have inside : ∀ f ∈ ((reached libraries query scope_ids limit t).filter (fun f => decide (query.Satisfied scope_ids now f))).take limit,
      f ∈ query.matching scope_ids now t := by
    intro f kept
    obtain ⟨read,satisfied⟩ := List.mem_filter.mp (List.mem_of_mem_take kept)
    obtain ⟨row,admitted⟩ := mem_reached read
    simp only [listable,Bool.and_eq_true,Option.isNone_iff_eq_none] at admitted
    exact mem_matching.mpr ⟨row,admitted.1.1,of_decide_eq_true satisfied⟩
  rw [and_iff_right inside]
  refine forall₂_congr fun f member => ?_
  have satisfied := (mem_matching.mp member).2.2
  rw [List.mem_filter,decide_eq_true satisfied,and_iff_left rfl]
  by_cases read : f ∈ reached libraries query scope_ids limit t
  · simp [read]
  · -- every row that is read scores at least as high
    have above : ((reached libraries query scope_ids limit t).filter (fun f => decide (query.Satisfied scope_ids now f))).countP
        (fun g => f.importance_score ≤ g.importance_score) =
          (reached libraries query scope_ids limit t).countP (fun g => decide (query.Satisfied scope_ids now g)) := by
      refine (List.countP_eq_length.mpr fun g kept => ?_).trans List.countP_eq_length_filter.symm
      simpa using le_reached resolved member read (List.mem_filter.mp kept).1
    rw [above]
    simp [read]

/-- The first of the rows that the texts admit are the best of all matches, unless one
    of them lies outside the period or a match that is not admitted is higher. -/
theorem timed_top_iff (valid : validate_memory_query query = .ok ()) (resolved : scope_ids ≠ some []) {start stop : DateTime}
    (bounds : period query = some (start,stop)) {listed : List Fact} (strict : listed.Pairwise (fun a b => listingKey b < listingKey a))
    (contents : listed.Perm (t.facts.rows.filter (admitsByText query scope_ids start stop))) :
    Top Fact.importance_score limit (query.matching scope_ids now t) (listed.take limit) ↔
      (∀ f ∈ t.facts.rows, admitsByText query scope_ids start stop f = true →
        t.facts.rows.countP (fun g => admitsByText query scope_ids start stop g && decide (listingKey f < listingKey g)) < limit →
          f.Overlaps start stop) ∧
      ∀ f ∈ query.matching scope_ids now t, FactStore.overlapsByText start stop f = false →
        limit ≤ t.facts.rows.countP (fun g => admitsByText query scope_ids start stop g && decide (f.importance_score ≤ g.importance_score)) := by
  have distinct : listed.Nodup := contents.nodup_iff.mpr ((t.facts.keys_nodup.of_map _).filter _)
  rw [top_take_iff (strict.imp fun lower => listingKey_le (le_of_lt lower)) distinct matching_nodup]
  refine and_congr ?_ (forall₂_congr fun f member => ?_)
  · simp only [mem_take_strict strict,contents.mem_iff,contents.countP_eq,List.mem_filter,List.countP_filter,and_imp]
    refine forall₃_congr fun f row admitted => ?_
    have texts := ((admitsByText_iff resolved).mp admitted).2.1
    have either : f ∈ query.matching scope_ids now t ∧ _ ↔ _ := mem_matching_of_text valid resolved bounds row
    simp only [texts,admitted,and_true,true_and] at either
    rw [either]
    simp only [Bool.and_comm]
  · obtain ⟨row,active,satisfied⟩ := mem_matching.mp member
    have texts : admitsByText query scope_ids start stop f = true ↔ FactStore.overlapsByText start stop f = true := by
      rw [admitsByText_iff resolved]
      exact ⟨fun all => all.2.1,fun texts =>
        ⟨active,texts,satisfied.placed,satisfied.typed,satisfied.important,satisfied.pinned⟩⟩
    rw [contents.mem_iff,List.mem_filter,and_iff_right row,texts,Bool.not_eq_true,contents.countP_eq,List.countP_filter]
    simp only [Bool.and_comm]

/-- The store path returns the best of all matches exactly when no match is lost. -/
theorem store_results_top_iff {ctx : MemoryCtx} {e e' : Engine} {response : QueryResponse}
    (executed : Commits (execute_query libraries ctx query now) e (.Executed response) e') (has_search : query.has_search = false)
    (resolved : resolve_query_scope_ids e.scope_tree query.scope = some scope_ids) :
    Top Fact.importance_score query.effective_limit (query.matching scope_ids now e.storage.toTables)
        (response.results.map SearchResult.fact) ↔
      Complete libraries query scope_ids query.effective_limit now e.storage.toTables := by
  obtain ⟨_,_,valid,⟨_,none_missing⟩ | ⟨_,_,found,same,run⟩⟩ := commits_execute_query.mp executed
  · cases none_missing
  cases same
  cases resolved.symm.trans found
  unfold execute_path at run
  rw [if_neg (by rw [has_search]; exact Bool.false_ne_true)] at run
  have nonempty := resolved_ne_nil resolved
  cases bounds : period query with
  | none =>
    rw [store_untimed_listed valid nonempty bounds run,shown_facts,untimed_complete_iff libraries query scope_ids _ now _ bounds]
    exact untimed_top_iff nonempty
  | some period =>
    obtain ⟨start,stop⟩ := period
    have timed : query.has_period = true := (validated_period valid).1.mpr (by rw [bounds]; rfl)
    obtain ⟨_,listed,results,strict,contents⟩ := store_period_listed bounds timed (period_cutoff valid timed now) run
    rw [results,shown_facts,timed_complete_iff libraries query scope_ids _ now _ bounds]
    exact timed_top_iff valid nonempty bounds strict contents

end Query
namespace Sample

/-- A store whose fourth fact is pinned and scores below the others. -/
def pinning (test : Engine → Bool) : Bool :=
  Ends (port (FactStore.insert backend { newFact "d" with is_pinned := true, base_importance := F64.ofRat (1 / 4) })) engine fun _ e => test e

/-- The best pinned fact. -/
def bestPinned : MemoryQuery := { pinned_only := true, limit := some 1 }

end Sample

theorem store_results_top_sample : ∃ e e' response, Commits (Query.execute_query Sample.libraries Sample.ctx Sample.bestPinned Sample.moment)
    e (.Executed response) e' ∧ (Top Fact.importance_score 1 (Sample.bestPinned.matching none Sample.moment e.storage.toTables)
      (response.results.map SearchResult.fact) ↔ Query.Complete Sample.libraries Sample.bestPinned none 1 Sample.moment e.storage.toTables) := by
  have ran : Sample.pinning (fun e => Ends (Query.execute_query Sample.libraries Sample.ctx Sample.bestPinned Sample.moment) e
      fun outcome _ => outcome matches .Executed _) = true := by decide +kernel
  obtain ⟨_,e,_,ran⟩ := commits_of_ends ran
  obtain ⟨outcome,e',executed,ran⟩ := commits_of_ends ran
  cases outcome with
  | ScopeMissing => cases ran
  | Executed response => exact ⟨e,e',response,executed,Query.store_results_top_iff executed rfl rfl⟩

/-- Three facts that are not pinned hide the only pinned one. -/
theorem pinned_fact_missing : ¬ ∀ (libraries : SearchLibraries) (ctx : MemoryCtx) (query : MemoryQuery) (now : DateTime) (e e' : Engine)
    (response : QueryResponse) (scope_ids : Option (List Int)),
    Commits (Query.execute_query libraries ctx query now) e (.Executed response) e' → query.has_search = false →
      Query.resolve_query_scope_ids e.scope_tree query.scope = some scope_ids →
        Top Fact.importance_score query.effective_limit (query.matching scope_ids now e.storage.toTables)
          (response.results.map SearchResult.fact) := by
  intro claim
  have ran : Sample.pinning (fun e => (Sample.bestPinned.matching none Sample.moment e.storage.toTables).length == 1 &&
      Ends (Query.execute_query Sample.libraries Sample.ctx Sample.bestPinned Sample.moment) e
        fun outcome _ => match outcome with
          | .Executed response => response.results.isEmpty
          | .ScopeMissing => false) = true := by decide +kernel
  obtain ⟨_,e,_,ran⟩ := commits_of_ends ran
  obtain ⟨one,ran⟩ := Bool.and_eq_true_iff.mp ran
  obtain ⟨outcome,e',executed,ran⟩ := commits_of_ends ran
  cases outcome with
  | ScopeMissing => cases ran
  | Executed response =>
    have length := (claim _ _ _ _ _ _ _ _ executed rfl rfl).holds.length_eq
    rw [List.length_map,List.isEmpty_iff.mp ran,beq_iff_eq.mp one] at length
    cases length

end MemoryEngine
