import MemoryEngine.Query

/-! What the filters of a query promise of a fact, and that the results of both live
paths keep the promise. -/

namespace MemoryEngine
open Time KeyedTable Transaction Ranking Search

/-- The fact is valid at an instant. -/
def Fact.ValidAt (f : Fact) (at_ : DateTime) : Prop := (∀ t ∈ f.t_valid, t ≤ at_) ∧ ∀ t ∈ f.t_invalid, at_ < t

/-- The fact is valid somewhere in a period that excludes its end. -/
def Fact.Overlaps (f : Fact) (start stop : DateTime) : Prop := (∀ t ∈ f.t_valid, t < stop) ∧ ∀ t ∈ f.t_invalid, start < t

instance (f : Fact) (at_ : DateTime) : Decidable (f.ValidAt at_) := inferInstanceAs (Decidable (_ ∧ _))
instance (f : Fact) (start stop : DateTime) : Decidable (f.Overlaps start stop) := inferInstanceAs (Decidable (_ ∧ _))

namespace MemoryQuery
variable (query : MemoryQuery)

/-- Valid at the instant of the query, within its period, or now without either. -/
def Timely (now : DateTime) (f : Fact) : Prop :=
  match query.valid_at,Query.period query with
  | some at_,_ => f.ValidAt at_
  | none,some bounds => f.Overlaps bounds.1 bounds.2
  | none,none => f.ValidAt now

instance (now : DateTime) (f : Fact) : Decidable (query.Timely now f) := by
  unfold Timely
  split <;> infer_instance

/-- The fact passes every filter of the query, whose scope stands for these ids. -/
structure Satisfied (scope_ids : Option (List Int)) (now : DateTime) (f : Fact) : Prop where
  placed : ∀ ids ∈ scope_ids, f.scope_id ∈ ids
  typed : ∀ ft ∈ query.fact_type, f.fact_type = ft
  timely : query.Timely now f
  important : ∀ min_score ∈ query.min_importance_score, min_score.le (.num f.importance_score) = true
  pinned : query.pinned_only = true → f.is_pinned = true

end MemoryQuery

namespace Search

theorem passes_temporal_cutoff_iff {f : Fact} {cutoff : DateTime} : passes_temporal_cutoff f cutoff = true ↔ f.ValidAt cutoff := by
  simp [passes_temporal_cutoff,Fact.ValidAt,Option.all_eq_true]

theorem fact_overlaps_period_iff {f : Fact} {start stop : DateTime} :
    fact_overlaps_period f start stop = true ↔ f.Overlaps start stop := by
  simp [fact_overlaps_period,Fact.Overlaps,Option.all_eq_true]

end Search

/-- The id belongs to a row that the filter admits. -/
def Tables.Admitted (t : Tables) (filter : FactFilter) (id : FactId) : Prop := ∃ f ∈ t.facts.rows, f.id = id ∧ filter.admits f = true

theorem FactFilter.admits_iff {filter : FactFilter} {f : Fact} : filter.admits f = true ↔
    f.t_expired = none ∧ (∀ ft ∈ filter.fact_type, f.fact_type = ft) ∧ ∀ ids ∈ filter.scope_ids, f.scope_id ∈ ids := by
  simp [admits,Option.all_eq_true,and_assoc]

/-- Rows have one fact for an id. -/
theorem Tables.Admitted.of_row {t : Tables} {filter : FactFilter} {f : Fact} (admitted : t.Admitted filter f.id)
    (member : f ∈ t.facts.rows) : filter.admits f = true := by
  obtain ⟨g,listed,same,passes⟩ := admitted
  rwa [← Table.key_unique t.facts listed member same]

namespace Search
variable {self : SqliteBackend} {libraries : SearchLibraries} {filter : FactFilter} {s t : Db} {r : List (FactId × F64)}

/-- A channel reads, and returns ids of admitted rows. -/
def Channel (filter : FactFilter) (s t : Db) (r : List (FactId × F64)) : Prop := t = s ∧ ∀ entry ∈ r, s.Admitted filter entry.1

theorem lexical_search_channel {text : String} {k : Nat} (committed : Commits (lexical_search libraries text filter k) s r t) :
    Channel filter s t r := by
  obtain ⟨rfl,rfl⟩ := commits_query.mp committed
  refine ⟨rfl,fun entry listed => ?_⟩
  obtain ⟨scored,taken,rfl⟩ := List.mem_map.mp listed
  have matched := mem_descending.mp (List.mem_of_mem_take taken)
  obtain ⟨f,kept,found⟩ := List.mem_filterMap.mp matched
  obtain ⟨score,_,rfl⟩ := Option.map_eq_some_iff.mp found
  obtain ⟨ordered,passes⟩ := List.mem_filter.mp kept
  exact ⟨f,(libraries.rows.perm _).mem_iff.mp ordered,rfl,passes⟩

theorem score_row_ok {embedding : Embedding} {f : Fact} {entry : FactId × F64}
    (scored : score_row self libraries embedding f = .ok entry) : entry.1 = f.id := by
  unfold score_row deserialize_embedding at scored
  split at scored
  · cases Except.ok.inj scored
    rfl
  · cases scored

theorem mem_score_rows {embedding : Embedding} {rows : List Fact} {scored : List (FactId × F64)}
    (converted : rows.mapM (score_row self libraries embedding) = .ok scored) {entry : FactId × F64} (listed : entry ∈ scored) :
    ∃ f ∈ rows, f.id = entry.1 := by
  obtain ⟨f,member,made⟩ := mapM_made converted listed
  exact ⟨f,member,(score_row_ok made).symm⟩

theorem mem_by_score {scored : List (FactId × F64)} {entry : FactId × F64} : entry ∈ by_score libraries scored ↔ entry ∈ scored :=
  mem_sortBy _ _

theorem vector_search_filtered_channel {embedding : Embedding} {limit : Nat}
    (committed : Commits (vector_search_filtered self libraries embedding limit filter) s r t) : Channel filter s t r := by
  unfold vector_search_filtered at committed
  split at committed
  · obtain ⟨rows,_,listed,scoring⟩ := commits_bind.mp committed
    obtain ⟨rfl,rfl⟩ := commits_query.mp listed
    obtain ⟨scored,_,converted,last⟩ := commits_bind.mp scoring
    obtain ⟨converted,rfl⟩ := commits_lift.mp converted
    obtain ⟨rfl,rfl⟩ := commits_pure.mp last
    refine ⟨rfl,fun entry listed => ?_⟩
    have inside := (libraries.scores.perm _).mem_iff.mp (mem_by_score.mp (List.mem_of_mem_take listed))
    obtain ⟨f,kept,same⟩ := mem_score_rows converted inside
    obtain ⟨ordered,passes⟩ := List.mem_filter.mp kept
    exact ⟨f,(libraries.rows.perm _).mem_iff.mp ordered,same,passes⟩
  · exact absurd committed commits_throw

theorem score_candidates_channel {embedding : Embedding} {candidates : List FactId}
    (committed : Commits (score_candidates self libraries embedding filter candidates) s r t) : Channel filter s t r := by
  obtain ⟨surviving,_,listed,scoring⟩ := commits_bind.mp committed
  obtain ⟨rfl,rfl⟩ := commits_query.mp listed
  obtain ⟨scored,_,converted,last⟩ := commits_bind.mp scoring
  obtain ⟨converted,rfl⟩ := commits_lift.mp converted
  obtain ⟨rfl,rfl⟩ := commits_pure.mp last
  refine ⟨rfl,fun entry listed => ?_⟩
  obtain ⟨id,_,found⟩ := List.mem_filterMap.mp listed
  obtain ⟨f,kept,same⟩ := mem_score_rows converted (List.mem_of_find?_eq_some found)
  obtain ⟨member,passes⟩ := List.mem_filter.mp kept
  exact ⟨f,member,same,(Bool.and_eq_true_iff.mp passes).2⟩

theorem widen_channel {hnsw : HnswStrategy} {embedding : Embedding} {limit attempts ef overfetch : Nat}
    {found : Option (List (FactId × F64))}
    (committed : Commits (widen self libraries hnsw embedding limit filter attempts ef overfetch) s found t) :
    t = s ∧ ∀ results, found = some results → Channel filter s t results := by
  induction attempts generalizing ef overfetch s with
  | zero =>
    obtain ⟨rfl,rfl⟩ := commits_pure.mp committed
    exact ⟨rfl,fun results same => by cases same⟩
  | succ attempts ih =>
    obtain ⟨results,m,scored,deciding⟩ := commits_bind.mp committed
    have channel := score_candidates_channel scored
    have unchanged : m = s := channel.1
    subst unchanged
    split at deciding
    · obtain ⟨rfl,rfl⟩ := commits_pure.mp deciding
      exact ⟨rfl,fun _ same => by cases same; exact channel⟩
    · exact ih deciding

theorem hnsw_search_channel {hnsw : HnswStrategy} {embedding : Embedding} {limit : Nat}
    (committed : Commits (hnsw_search self libraries hnsw embedding limit filter) s r t) : Channel filter s t r := by
  unfold hnsw_search at committed
  split at committed
  · split at committed
    · obtain ⟨rfl,rfl⟩ := commits_pure.mp committed
      exact ⟨rfl,fun entry listed => by cases listed⟩
    · obtain ⟨found,m,widened,ending⟩ := commits_bind.mp committed
      obtain ⟨rfl,channel⟩ := widen_channel widened
      cases found with
      | none => exact vector_search_filtered_channel ending
      | some results =>
        obtain ⟨rfl,rfl⟩ := commits_pure.mp ending
        exact ⟨rfl,fun entry listed => (channel results rfl).2 entry (mem_by_score.mp (List.mem_of_mem_take listed))⟩
  · exact absurd committed commits_throw

theorem vector_search_channel {embedding : Embedding} {k : Nat}
    (committed : Commits (vector_search self libraries embedding filter k) s r t) : Channel filter s t r := by
  unfold vector_search at committed
  split at committed
  · exact hnsw_search_channel committed
  · exact vector_search_filtered_channel committed

theorem mem_credit {id : FactId} {weight : F64} {scores : List (FactId × F64)} {entry : FactId × F64}
    (listed : entry ∈ credit id weight scores) : entry.1 = id ∨ ∃ score, (entry.1,score) ∈ scores := by
  induction scores with
  | nil => exact .inl (congrArg Prod.fst (List.mem_singleton.mp listed))
  | cons head rest ih =>
    obtain ⟨id',score⟩ := head
    unfold credit at listed
    split at listed
    · rename_i same
      rcases List.mem_cons.mp listed with rfl | later
      · exact .inl same
      · exact .inr ⟨entry.2,List.mem_cons_of_mem _ later⟩
    · rcases List.mem_cons.mp listed with rfl | later
      · exact .inr ⟨score,List.mem_cons_self⟩
      · rcases ih later with same | ⟨score',held⟩
        · exact .inl same
        · exact .inr ⟨score',List.mem_cons_of_mem _ held⟩

theorem mem_credits {ranking : List ((FactId × F64) × Nat)} {k : Nat} {scores : List (FactId × F64)} {entry : FactId × F64}
    (listed : entry ∈ ranking.foldl (fun scores entry => credit entry.1.1 (rrf_weight k entry.2) scores) scores) :
    (∃ e ∈ ranking, e.1.1 = entry.1) ∨ ∃ score, (entry.1,score) ∈ scores := by
  induction ranking generalizing scores with
  | nil => exact .inr ⟨entry.2,listed⟩
  | cons head rest ih =>
    rcases ih listed with ⟨e,later,same⟩ | ⟨score,held⟩
    · exact .inl ⟨e,List.mem_cons_of_mem _ later,same⟩
    · rcases mem_credit held with same | ⟨score',before⟩
      · exact .inl ⟨head,List.mem_cons_self,same.symm⟩
      · exact .inr ⟨score',before⟩

/-- Fusion ranks ids of the two rankings only. -/
theorem mem_rrf_merge {fts vec : List (FactId × F64)} {k : Nat} {entry : FactId × F64} (listed : entry ∈ rrf_merge libraries fts vec k) :
    ∃ e, (e ∈ fts ∨ e ∈ vec) ∧ e.1 = entry.1 := by
  have inside := (libraries.scores.perm _).mem_iff.mp (mem_by_score.mp listed)
  rcases mem_credits inside with ⟨e,ranked,same⟩ | ⟨score,held⟩
  · exact ⟨e.1,.inr (List.fst_mem_of_mem_zipIdx ranked),same⟩
  · rcases mem_credits held with ⟨e,ranked,same⟩ | ⟨_,none_held⟩
    · exact ⟨e.1,.inl (List.fst_mem_of_mem_zipIdx ranked),same⟩
    · cases none_held

theorem commits_get_facts {ids : List FactId} {facts : List Fact} : Commits (get_facts self ids) s facts t ↔
    t = s ∧ facts = s.facts.rows.filter (fun f => ids.contains f.id) ∧ ∀ f ∈ facts, f.Readable self.embed_dim := by
  constructor
  · intro committed
    obtain ⟨_,_,listed,reading⟩ := commits_bind.mp committed
    obtain ⟨rfl,rfl⟩ := commits_query.mp listed
    obtain ⟨read,rfl⟩ := commits_lift.mp reading
    obtain ⟨rfl,readable⟩ := readRows_ok.mp read
    exact ⟨rfl,rfl,readable⟩
  · rintro ⟨rfl,rfl,readable⟩
    exact commits_bind.mpr ⟨_,_,commits_query.mpr ⟨rfl,rfl⟩,commits_lift.mpr ⟨readRows_ok.mpr ⟨rfl,readable⟩,rfl⟩⟩

/-- A collected result: a loaded fact of the ranking, valid at the cutoff. -/
structure Collected (cutoff : DateTime) (ranked : List (FactId × F64)) (facts_by_id : List Fact) (r : SearchResult) : Prop where
  loaded : r.fact ∈ facts_by_id
  listed : ∃ score, (r.fact.id,score) ∈ ranked
  valid : r.fact.ValidAt cutoff
  live : r.match_type ≠ .Archive

theorem match_type_live (fts_ids vec_ids : List FactId) (id : FactId) : match_type fts_ids vec_ids id ≠ .Archive := by
  unfold match_type
  split
  · decide
  · split <;> decide

theorem mem_collect {cutoff : DateTime} {effective_limit : Nat} {fts_ids vec_ids : List FactId} {ranked : List (FactId × F64)}
    {facts_by_id : List Fact} {results : List SearchResult} {r : SearchResult}
    (listed : r ∈ collect cutoff effective_limit fts_ids vec_ids ranked facts_by_id results) :
    r ∈ results ∨ Collected cutoff ranked facts_by_id r := by
  induction ranked generalizing facts_by_id results with
  | nil => exact .inl listed
  | cons head rest ih =>
    obtain ⟨id,score⟩ := head
    unfold collect at listed
    split at listed
    · exact .inl listed
    · split at listed
      · rcases ih listed with before | ⟨loaded,⟨score',later⟩,valid,live⟩
        · exact .inl before
        · exact .inr ⟨loaded,⟨score',List.mem_cons_of_mem _ later⟩,valid,live⟩
      · rename_i fact found
        have lift : ∀ {results' : List SearchResult}, r ∈ results' ∨
            Collected cutoff rest (facts_by_id.filter (fun f => f.id ≠ id)) r →
            r ∈ results' ∨ Collected cutoff ((id,score) :: rest) facts_by_id r := by
          intro results' either
          rcases either with before | ⟨loaded,⟨score',later⟩,valid,live⟩
          · exact .inl before
          · exact .inr ⟨(List.mem_filter.mp loaded).1,⟨score',List.mem_cons_of_mem _ later⟩,valid,live⟩
        dsimp only at listed
        split at listed
        · rename_i passes
          rcases lift (ih listed) with either | collected
          · rcases List.mem_append.mp either with before | last
            · exact .inl before
            · rw [List.mem_singleton.mp last]
              have same : fact.id = id := by simpa using List.find?_some found
              exact .inr ⟨List.mem_of_find?_eq_some found,⟨score,by rw [same]; exact List.mem_cons_self⟩,
                passes_temporal_cutoff_iff.mp passes,match_type_live _ _ _⟩
          · exact .inr collected
        · exact lift (ih listed)

theorem Channel.none (filter : FactFilter) (s : Db) : Channel filter s s [] := ⟨rfl,fun entry listed => by cases listed⟩

theorem fts_results_channel {query : SearchQuery} {overfetch : Nat}
    (committed : Commits (fts_results libraries query filter overfetch) s r t) : Channel filter s t r := by
  unfold fts_results at committed
  split at committed
  · exact lexical_search_channel committed
  · exact lexical_search_channel committed
  · obtain ⟨rfl,rfl⟩ := commits_pure.mp committed
    exact Channel.none _ _

theorem vec_results_channel {query : SearchQuery} {overfetch : Nat}
    (committed : Commits (vec_results self libraries query filter overfetch) s r t) : Channel filter s t r := by
  unfold vec_results at committed
  split at committed
  · exact vector_search_channel committed
  · exact vector_search_channel committed
  · obtain ⟨rfl,rfl⟩ := commits_pure.mp committed
    exact Channel.none _ _

/-- A result of the search: an admitted row, valid at the cutoff. -/
structure Retrieved (filter : FactFilter) (cutoff : DateTime) (s : Db) (r : SearchResult) : Prop where
  row : r.fact ∈ s.facts.rows
  admitted : filter.admits r.fact = true
  valid : r.fact.ValidAt cutoff
  live : r.match_type ≠ .Archive

theorem port_hybrid_search_retrieved {query : SearchQuery} {scope_ids : Option (List Int)} {now : DateTime}
    {found : List SearchResult × QueryDiagnostics} (committed : Commits (port_hybrid_search self libraries query scope_ids now) s found t) :
    t = s ∧ ∀ r ∈ found.1, Retrieved ⟨query.fact_type,scope_ids⟩ (query.valid_at.getD now) s r := by
  obtain ⟨fts_found,m₁,lexical,searching⟩ := commits_bind.mp committed
  obtain ⟨vec_found,m₂,vector,loading⟩ := commits_bind.mp searching
  obtain ⟨facts_by_id,m₃,loaded,last⟩ := commits_bind.mp loading
  have fts := fts_results_channel lexical
  have unchanged : m₁ = s := fts.1
  subst unchanged
  have vec := vec_results_channel vector
  have unchanged : m₂ = m₁ := vec.1
  subst unchanged
  obtain ⟨rfl,rfl,_⟩ := commits_get_facts.mp loaded
  obtain ⟨rfl,rfl⟩ := commits_pure.mp last
  refine ⟨rfl,fun r listed => ?_⟩
  rcases mem_collect listed with before | ⟨fetched,⟨score,ranked⟩,valid,live⟩
  · cases before
  have row := (List.mem_filter.mp fetched).1
  refine ⟨row,Tables.Admitted.of_row ?_ row,valid,live⟩
  unfold Search.ranked at ranked
  split at ranked
  · exact fts.2 _ ranked
  · exact vec.2 _ ranked
  · obtain ⟨e,either,same⟩ := mem_rrf_merge ranked
    change e.1 = r.fact.id at same
    rw [← same]
    exact either.elim (fts.2 e) (vec.2 e)

end Search

namespace Query
variable {self : SqliteBackend} {libraries : SearchLibraries} {s t : Db}

theorem mem_retainIf {α : Type} {set : Option α} {passes : α → Fact → Bool} {results : List SearchResult} {r : SearchResult} :
    r ∈ retainIf set passes results ↔ r ∈ results ∧ ∀ value ∈ set, passes value r.fact = true := by
  unfold retainIf
  cases set <;> simp

theorem mem_post_filter {query : MemoryQuery} {results : List SearchResult} {r : SearchResult} : r ∈ post_filter query results ↔
    r ∈ results ∧ (∀ bounds ∈ period query, r.fact.Overlaps bounds.1 bounds.2) ∧
      (∀ min_score ∈ query.min_importance_score, min_score.le (.num r.fact.importance_score) = true) ∧
        (query.pinned_only = true → r.fact.is_pinned = true) := by
  have either : r ∈ post_filter query results ↔
      r ∈ retainIf query.min_importance_score (fun min_score f => min_score.le (.num f.importance_score))
        (retainIf (period query) (fun bounds f => fact_overlaps_period f bounds.1 bounds.2) results) ∧
          (query.pinned_only = true → r.fact.is_pinned = true) := by
    unfold post_filter
    cases query.pinned_only <;> simp
  rw [either,mem_retainIf,mem_retainIf]
  simp only [fact_overlaps_period_iff,and_assoc]

/-- What a query that validates looks like. -/
theorem validated_period {query : MemoryQuery} (valid : validate_memory_query query = .ok ()) :
    (query.has_period = true ↔ (period query).isSome = true) ∧ (query.valid_at.isSome = true → query.has_period = false) := by
  unfold validate_memory_query at valid
  split at valid
  · cases valid
  · rename_i paired
    split at valid
    · cases valid
    · rename_i exclusive
      constructor
      · unfold period MemoryQuery.has_period
        cases start : query.period_start <;> cases stop : query.period_end <;> simp_all
      · intro dated
        simpa [dated] using exclusive

/-- A period leaves no cutoff. -/
theorem period_cutoff {query : MemoryQuery} (valid : validate_memory_query query = .ok ()) (timed : query.has_period = true)
    (now : DateTime) : effective_cutoff query now = none := by
  have undated : query.valid_at.isSome = false := by
    cases dated : query.valid_at.isSome with
    | false => rfl
    | true =>
      have exclusive := (validated_period valid).2 dated
      rw [timed] at exclusive
      cases exclusive
  simp [effective_cutoff,undated,timed]

/-- The cutoff and the period of a query say when its facts are valid. -/
theorem timely_iff {query : MemoryQuery} (valid : validate_memory_query query = .ok ()) {now : DateTime} {f : Fact} :
    query.Timely now f ↔ (∀ cutoff ∈ effective_cutoff query now, f.ValidAt cutoff) ∧
      ∀ bounds ∈ period query, f.Overlaps bounds.1 bounds.2 := by
  obtain ⟨whole,exclusive⟩ := validated_period valid
  unfold MemoryQuery.Timely effective_cutoff
  cases dated : query.valid_at with
  | some at_ =>
    have unset : query.has_period = false := exclusive (by rw [dated]; rfl)
    have absent : period query = none := by
      rw [unset] at whole
      simpa using whole
    simp [absent]
  | none =>
    cases bounds : period query with
    | some bounds =>
      have set : query.has_period = true := whole.mpr (by rw [bounds]; rfl)
      simp [set]
    | none =>
      have unset : query.has_period = false := by
        rw [bounds] at whole
        simpa using whole
      simp [unset]

theorem commits_expired_probe {query : MemoryQuery} {scope_ids : Option (List Int)} {found : Option Nat}
    (committed : Commits (expired_probe libraries query scope_ids) s found t) : t = s := by
  unfold expired_probe at committed
  split at committed
  · obtain ⟨_,counted,_⟩ := commits_map.mp committed
    exact (commits_query.mp counted).2
  · exact (commits_pure.mp committed).2

theorem execute_search_path_satisfied {query : MemoryQuery} (valid : validate_memory_query query = .ok ())
    {scope_ids : Option (List Int)} {limit : Nat} {now : DateTime} {response : QueryResponse}
    (committed : Commits (execute_search_path self libraries query scope_ids (effective_cutoff query now) limit now) s response t) :
    t = s ∧ ∀ r ∈ response.results, r.fact ∈ s.facts.rows ∧ r.match_type ≠ .Archive ∧ query.Satisfied scope_ids now r.fact := by
  obtain ⟨found,m,searched,probing⟩ := commits_bind.mp committed
  obtain ⟨expired_matches,m',probed,last⟩ := commits_bind.mp probing
  obtain ⟨rfl,retrieved⟩ := port_hybrid_search_retrieved searched
  have unchanged : m' = m := commits_expired_probe probed
  subst unchanged
  obtain ⟨rfl,rfl⟩ := commits_pure.mp last
  refine ⟨rfl,fun r listed => ?_⟩
  obtain ⟨fetched,overlapping,important,pinned⟩ := mem_post_filter.mp (List.mem_of_mem_take listed)
  obtain ⟨row,admitted,held,live⟩ := retrieved r fetched
  obtain ⟨_,typed,placed⟩ := FactFilter.admits_iff.mp admitted
  refine ⟨row,live,placed,typed,(timely_iff valid).mpr ⟨fun cutoff set => ?_,overlapping⟩,important,pinned⟩
  have same : effective_cutoff query now = some cutoff := set
  simpa [search_query,same] using held

/-- The filters of the store path that SQL leaves to the code. -/
theorem store_filter_iff {query : MemoryQuery} {cutoff : Option DateTime} {f : Fact} : store_filter query cutoff f = true ↔
    (∀ at_ ∈ cutoff, f.ValidAt at_) ∧ (query.has_period = false → ∀ ft ∈ query.fact_type, f.fact_type = ft) ∧
      (query.has_period = true → ∀ min_score ∈ query.min_importance_score, min_score.le (.num f.importance_score) = true) ∧
        (query.pinned_only = true → f.is_pinned = true) := by
  unfold store_filter
  simp only [Bool.and_eq_true,Option.all_eq_true,passes_temporal_cutoff_iff,Bool.or_eq_true,Bool.not_eq_true',beq_iff_eq,and_assoc]
  refine and_congr_right fun _ => and_congr ?_ (and_congr ?_ ?_)
  · cases query.has_period <;> simp
  · cases query.has_period <;> simp
  · cases query.pinned_only <;> simp

theorem inScopes_iff {scope_ids : Option (List Int)} (resolved : scope_ids ≠ some []) {f : Fact} :
    FactStore.inScopes (scope_ids.getD []) f = true ↔ ∀ ids ∈ scope_ids, f.scope_id ∈ ids := by
  unfold FactStore.inScopes
  cases scope_ids with
  | none => simp
  | some ids =>
    cases ids with
    | nil => exact absurd rfl resolved
    | cons id rest => simp

theorem resolved_ne_nil {tree : ScopeTree} {scope : Option ScopeQuery} {scope_ids : Option (List Int)}
    (resolved : resolve_query_scope_ids tree scope = some scope_ids) : scope_ids ≠ some [] := by
  cases scope with
  | none =>
    cases Option.some.inj resolved
    exact Option.some_ne_none _ |>.symm
  | some scope =>
    obtain ⟨ids,found,rfl⟩ := Option.map_eq_some_iff.mp resolved
    exact fun same => ScopeTree.resolve_query_ne_nil found (Option.some.inj same)

theorem commits_fetch_candidates {query : MemoryQuery} {scope_ids : Option (List Int)} {limit : Nat} {facts : List Fact}
    (committed : Commits (fetch_candidates self libraries query scope_ids limit) s facts t) :
    t = s ∧ (∀ f ∈ facts, f.Readable self.embed_dim) ∧ facts = match period query with
      | some (start,stop) => descending (fun f => toLex (f.importance_score,OrderDual.toDual f.id)) (s.facts.rows.filter fun f =>
          f.t_expired.isNone && FactStore.overlapsByText start stop f && FactStore.inScopes (scope_ids.getD []) f &&
            query.fact_type.all (fun ft => f.fact_type == ft))
      | none => (descending Fact.importance_score ((libraries.rows.order s.facts.rows).filter fun f =>
          f.t_expired.isNone && (query.min_importance_score.getD (F64.ofRat 0)).le (.num f.importance_score) && !([] : List FactId).contains f.id &&
            FactStore.inScopes (scope_ids.getD []) f)).take (limit_i64 (tripled limit)) := by
  unfold fetch_candidates at committed
  cases bounds : period query with
  | none =>
    rw [bounds] at committed
    obtain ⟨_,_,listed,reading⟩ := commits_bind.mp committed
    obtain ⟨rfl,rfl⟩ := commits_query.mp listed
    obtain ⟨read,rfl⟩ := commits_lift.mp reading
    obtain ⟨rfl,readable⟩ := readRows_ok.mp read
    exact ⟨rfl,readable,rfl⟩
  | some bounds =>
    rw [bounds] at committed
    obtain ⟨_,_,listed,reading⟩ := commits_bind.mp committed
    obtain ⟨rfl,rfl⟩ := commits_query.mp listed
    obtain ⟨read,rfl⟩ := commits_lift.mp reading
    obtain ⟨rfl,readable⟩ := readRows_ok.mp read
    exact ⟨rfl,readable,rfl⟩

theorem commits_execute_store_path {query : MemoryQuery} {scope_ids : Option (List Int)} {cutoff : Option DateTime} {limit : Nat}
    {response : QueryResponse} (committed : Commits (execute_store_path self libraries query scope_ids cutoff limit) s response t) :
    ∃ facts, Commits (fetch_candidates self libraries query scope_ids limit) s facts t ∧
      response.results = ((descending Fact.importance_score (facts.filter (store_filter query cutoff))).take limit).map
        fact_to_search_result := by
  obtain ⟨facts,m,fetched,last⟩ := commits_bind.mp committed
  obtain ⟨rfl,rfl⟩ := commits_pure.mp last
  exact ⟨facts,fetched,rfl⟩

/-- What the rows of a period query pass before they are ranked: every filter, the
    period compared by texts. -/
def admitsByText (query : MemoryQuery) (scope_ids : Option (List Int)) (start stop : DateTime) (f : Fact) : Bool :=
  f.t_expired.isNone && FactStore.overlapsByText start stop f && FactStore.inScopes (scope_ids.getD []) f &&
    query.fact_type.all (fun ft => f.fact_type == ft) &&
      query.min_importance_score.all (fun min_score => min_score.le (.num f.importance_score)) && (!query.pinned_only || f.is_pinned)

/-- The order of the period listing. -/
def listingKey (f : Fact) : SqlReal ×ₗ FactIdᵒᵈ := toLex (f.importance_score,OrderDual.toDual f.id)

theorem listingKey_le {f g : Fact} (lower : listingKey f ≤ listingKey g) : f.importance_score ≤ g.importance_score := by
  rcases Prod.Lex.le_iff.mp lower with strict | ⟨same,_⟩
  · exact strict.le
  · exact le_of_eq same

theorem listingKey_id {f g : Fact} (same : listingKey f = listingKey g) : f.id = g.id := by
  have both := Prod.mk.inj (toLex.injective same)
  exact OrderDual.toDual.injective both.2

/-- Distinct ids in the order of the listing stand strictly in it. -/
theorem listing_strict {rows : List Fact} (distinct : (rows.map Fact.id).Nodup) :
    (descending listingKey rows).Pairwise (fun a b => listingKey b < listingKey a) := by
  have apart : ((descending listingKey rows).map Fact.id).Nodup := ((descending_perm listingKey rows).map Fact.id).nodup_iff.mpr distinct
  have ids : (descending listingKey rows).Pairwise (fun a b => a.id ≠ b.id) := List.pairwise_map.mp apart
  exact ((descending_sorted listingKey rows).and ids).imp fun both =>
    lt_of_le_of_ne both.1 fun same => both.2 (listingKey_id same).symm

theorem admitsByText_iff {query : MemoryQuery} {scope_ids : Option (List Int)} (resolved : scope_ids ≠ some []) {start stop : DateTime}
    {f : Fact} : admitsByText query scope_ids start stop f = true ↔
      f.t_expired = none ∧ FactStore.overlapsByText start stop f = true ∧ (∀ ids ∈ scope_ids, f.scope_id ∈ ids) ∧
        (∀ ft ∈ query.fact_type, f.fact_type = ft) ∧
          (∀ min_score ∈ query.min_importance_score, min_score.le (.num f.importance_score) = true) ∧
            (query.pinned_only = true → f.is_pinned = true) := by
  unfold admitsByText
  simp only [Bool.and_eq_true,inScopes_iff resolved,Option.isNone_iff_eq_none,Option.all_eq_true,Bool.or_eq_true,Bool.not_eq_true',
    beq_iff_eq,and_assoc]
  cases query.pinned_only <;> simp

/-- A period query lists the rows that it admits, and takes the first of them. -/
theorem store_period_listed {query : MemoryQuery} {scope_ids : Option (List Int)} {cutoff : Option DateTime} {limit : Nat}
    {start stop : DateTime} {response : QueryResponse} (bounds : period query = some (start,stop)) (timed : query.has_period = true)
    (open_ : cutoff = none)
    (committed : Commits (execute_store_path self libraries query scope_ids cutoff limit) s response t) :
    t = s ∧ ∃ listed : List Fact, response.results = (listed.take limit).map fact_to_search_result ∧
      listed.Pairwise (fun a b => listingKey b < listingKey a) ∧
        listed.Perm (s.facts.rows.filter (admitsByText query scope_ids start stop)) := by
  obtain ⟨facts,fetched,listed⟩ := commits_execute_store_path committed
  obtain ⟨rfl,_,shape⟩ := commits_fetch_candidates fetched
  rw [bounds] at shape
  have whole : ∀ g : Fact, ((g.t_expired.isNone && FactStore.overlapsByText start stop g && FactStore.inScopes (scope_ids.getD []) g &&
      query.fact_type.all (fun ft => g.fact_type == ft)) && store_filter query cutoff g) = admitsByText query scope_ids start stop g := by
    intro g
    unfold admitsByText store_filter
    rw [open_,timed]
    simp only [Option.all_none,Bool.true_and,Bool.true_or,Bool.not_true,Bool.false_or,Bool.and_assoc]
  have strict : (facts.filter (store_filter query cutoff)).Pairwise (fun a b => listingKey b < listingKey a) := by
    rw [shape]
    refine List.Pairwise.filter _ (listing_strict ?_)
    exact t.facts.keys_nodup.sublist (List.filter_sublist.map Fact.id)
  have ordered : descending Fact.importance_score (facts.filter (store_filter query cutoff)) = facts.filter (store_filter query cutoff) :=
    List.Pairwise.insertionSort_eq (strict.imp fun lower => listingKey_le (le_of_lt lower))
  refine ⟨rfl,facts.filter (store_filter query cutoff),by rw [listed,ordered],strict,?_⟩
  rw [shape]
  refine ((descending_perm listingKey _).filter _).trans (List.Perm.of_eq ?_)
  rw [List.filter_filter]
  exact List.filter_congr fun g _ => by rw [Bool.and_comm]; exact whole g

/-- The results of a period query, by the place of each row in the listing. -/
theorem mem_store_period {query : MemoryQuery} {scope_ids : Option (List Int)} {cutoff : Option DateTime} {limit : Nat}
    {start stop : DateTime} {response : QueryResponse} (bounds : period query = some (start,stop)) (timed : query.has_period = true)
    (open_ : cutoff = none)
    (committed : Commits (execute_store_path self libraries query scope_ids cutoff limit) s response t) :
    t = s ∧ ∀ f, (∃ r ∈ response.results, r.fact = f) ↔ f ∈ s.facts.rows ∧ admitsByText query scope_ids start stop f = true ∧
      s.facts.rows.countP (fun g => admitsByText query scope_ids start stop g && decide (listingKey f < listingKey g)) < limit := by
  obtain ⟨same,listed,results,strict,contents⟩ := store_period_listed bounds timed open_ committed
  refine ⟨same,fun f => ?_⟩
  have shown : (∃ r ∈ response.results, r.fact = f) ↔ f ∈ listed.take limit := by
    rw [results]
    constructor
    · rintro ⟨r,shown,rfl⟩
      obtain ⟨g,taken,rfl⟩ := List.mem_map.mp shown
      exact taken
    · intro taken
      exact ⟨fact_to_search_result f,List.mem_map_of_mem taken,rfl⟩
  rw [shown,mem_take_strict strict,contents.mem_iff,contents.countP_eq,List.mem_filter,List.countP_filter,and_assoc]
  simp only [Bool.and_comm]

/-- Without a period every result of the store path keeps the promise. -/
theorem execute_store_path_satisfied {query : MemoryQuery} (valid : validate_memory_query query = .ok ())
    {scope_ids : Option (List Int)} (resolved : scope_ids ≠ some []) (untimed : period query = none) {limit : Nat} {now : DateTime}
    {response : QueryResponse}
    (committed : Commits (execute_store_path self libraries query scope_ids (effective_cutoff query now) limit) s response t) :
    t = s ∧ ∀ r ∈ response.results, query.Satisfied scope_ids now r.fact := by
  obtain ⟨facts,fetched,listed⟩ := commits_execute_store_path committed
  obtain ⟨rfl,_,shape⟩ := commits_fetch_candidates fetched
  rw [untimed] at shape
  refine ⟨rfl,fun r shown => ?_⟩
  rw [listed] at shown
  obtain ⟨f,taken,rfl⟩ := List.mem_map.mp shown
  change query.Satisfied scope_ids now f
  obtain ⟨inside,passes⟩ := List.mem_filter.mp (mem_descending.mp (List.mem_of_mem_take taken))
  obtain ⟨valid_at,typed,_,pinned⟩ := store_filter_iff.mp passes
  rw [shape] at inside
  obtain ⟨_,admitted⟩ := List.mem_filter.mp (mem_descending.mp (List.mem_of_mem_take inside))
  simp only [Bool.and_eq_true] at admitted
  have unset : query.has_period = false := by
    have whole := (validated_period valid).1
    rw [untimed] at whole
    simpa using whole
  refine ⟨(inScopes_iff resolved).mp admitted.2,typed unset,(timely_iff valid).mpr ⟨valid_at,?_⟩,fun min_score set => ?_,pinned⟩
  · rw [untimed]
    exact fun bounds none_set => by cases none_set
  · have important := admitted.1.1.2
    rwa [show query.min_importance_score = some min_score from set] at important

end Query
end MemoryEngine
