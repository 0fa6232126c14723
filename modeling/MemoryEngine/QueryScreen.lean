import MemoryEngine.ArchiveSearch

/-! The response of a query against the filters of the query. The live results pass
them all; what the archives add is held to the type alone, and a period that the
rows are listed by is compared as text. -/

namespace MemoryEngine
open Time KeyedTable Transaction Ranking Search ArchiveSearch

/-- The scope of the query resolves, and the fact passes every filter. -/
def MemoryQuery.Answers (query : MemoryQuery) (tree : ScopeTree) (now : DateTime) (f : Fact) : Prop :=
  ∃ scope_ids, Query.resolve_query_scope_ids tree query.scope = some scope_ids ∧ query.Satisfied scope_ids now f

namespace Query
variable {libraries : SearchLibraries} {ctx : MemoryCtx} {query : MemoryQuery} {now : DateTime} {e e' : Engine}

theorem search_path_unchanged {scope_ids : Option (List Int)} {cutoff : Option DateTime} {limit : Nat} {s t : Db} {live : QueryResponse}
    (run : Commits (execute_search_path ctx.backend libraries query scope_ids cutoff limit now) s live t) : t = s := by
  obtain ⟨found,m,searched,probing⟩ := commits_bind.mp run
  obtain ⟨expired_matches,m',probed,last⟩ := commits_bind.mp probing
  have first := (port_hybrid_search_retrieved searched).1
  have second := commits_expired_probe probed
  obtain ⟨_,third⟩ := commits_pure.mp last
  rw [third,second,first]

theorem store_path_unchanged {scope_ids : Option (List Int)} {cutoff : Option DateTime} {limit : Nat} {s t : Db} {live : QueryResponse}
    (run : Commits (execute_store_path ctx.backend libraries query scope_ids cutoff limit) s live t) : t = s := by
  obtain ⟨facts,fetched,_⟩ := commits_execute_store_path run
  exact (commits_fetch_candidates fetched).1

theorem path_unchanged {scope_ids : Option (List Int)} {s t : Db} {live : QueryResponse}
    (run : Commits (execute_path ctx.backend libraries query scope_ids now) s live t) : t = s := by
  unfold execute_path at run
  split at run
  · exact search_path_unchanged run
  · exact store_path_unchanged run

/-- A query that goes through reads only, and executes unless its scope is missing. -/
theorem commits_execute_query {outcome : QueryExecution} : Commits (execute_query libraries ctx query now) e outcome e' ↔
    e' = e ∧ ctx.ensure_open = .ok () ∧ validate_memory_query query = .ok () ∧
      ((resolve_query_scope_ids e.scope_tree query.scope = none ∧ outcome = .ScopeMissing) ∨
        ∃ scope_ids live, resolve_query_scope_ids e.scope_tree query.scope = some scope_ids ∧ outcome = .Executed live ∧
          Commits (execute_path ctx.backend libraries query scope_ids now) e.storage live e.storage) := by
  constructor
  · intro committed
    obtain ⟨_,m₁,gate,validating⟩ := commits_bind.mp committed
    obtain ⟨opened,first⟩ := commits_lift.mp gate
    obtain ⟨_,m₂,check,reading⟩ := commits_bind.mp validating
    obtain ⟨validated,second⟩ := commits_lift.mp check
    obtain ⟨engine,m₃,got,running⟩ := commits_bind.mp reading
    obtain ⟨here,third⟩ := commits_get.mp got
    rw [second.trans first] at here third
    rw [here,third] at running
    cases resolved : resolve_query_scope_ids e.scope_tree query.scope with
    | none =>
      rw [resolved] at running
      obtain ⟨rfl,rfl⟩ := commits_pure.mp running
      exact ⟨rfl,opened,validated,.inl ⟨rfl,rfl⟩⟩
    | some scope_ids =>
      rw [resolved] at running
      obtain ⟨live,_,ported,last⟩ := commits_bind.mp running
      obtain ⟨db,run,rfl⟩ := commits_port.mp ported
      obtain ⟨rfl,rfl⟩ := commits_pure.mp last
      have unchanged : db = e.storage := path_unchanged run
      subst unchanged
      exact ⟨rfl,opened,validated,.inr ⟨scope_ids,live,rfl,rfl,run⟩⟩
  · rintro ⟨same,opened,validated,paths⟩
    rw [same]
    refine commits_bind.mpr ⟨(),e,commits_lift.mpr ⟨opened,rfl⟩,commits_bind.mpr ⟨(),e,commits_lift.mpr ⟨validated,rfl⟩,
      commits_bind.mpr ⟨e,e,commits_get.mpr ⟨rfl,rfl⟩,?_⟩⟩⟩
    rcases paths with ⟨resolved,rfl⟩ | ⟨scope_ids,live,resolved,rfl,run⟩
    · rw [resolved]
      exact commits_pure.mpr ⟨rfl,rfl⟩
    · rw [resolved]
      exact commits_bind.mpr ⟨live,e,commits_port.mpr ⟨e.storage,run,rfl⟩,commits_pure.mpr ⟨rfl,rfl⟩⟩

/-- A live result is no archived one, and the search channels answer the query. -/
theorem searched_answers (valid : validate_memory_query query = .ok ()) (has_search : query.has_search = true)
    {scope_ids : Option (List Int)} {s t : Db} {live : QueryResponse}
    (run : Commits (execute_path ctx.backend libraries query scope_ids now) s live t) :
    ∀ r ∈ live.results, r.match_type ≠ .Archive ∧ query.Satisfied scope_ids now r.fact := by
  unfold execute_path at run
  rw [if_pos has_search] at run
  intro r listed
  exact ((execute_search_path_satisfied valid run).2 r listed).2

end Query

namespace ArchiveSearch
variable {libraries : SearchLibraries} {ctx : MemoryCtx} {query : MemoryQuery} {now : DateTime} {e e' : Engine}
  {ties : Shuffle SearchResult} {archive_dir : Option ArchiveDir}

theorem commits_manifest_list {s t : Db} {entries : List ArchiveManifestEntry} : Commits ArchiveManifestStore.list s entries t →
    t = s := by
  intro committed
  obtain ⟨rows,m,listed,reading⟩ := commits_bind.mp committed
  obtain ⟨_,first⟩ := commits_query.mp listed
  obtain ⟨_,second⟩ := commits_lift.mp reading
  rw [second,first]

/-- The outcome of the fallback: matches of the files, or nothing to add. -/
theorem fallback_cases {limit : Nat} {s t : Db} {archived : Except MemoryError (Option ArchiveSearchResult)}
    (committed : Commits (attempt (search_archives_fallback libraries ties archive_dir query limit)) s archived t) :
    t = s ∧ (∀ response, merge_archives ties limit response archived = response ∨ ∃ dir entries n, archive_dir = some dir ∧
      Commits ArchiveManifestStore.list s entries s ∧ (∀ entry ∈ entries, Legible dir entry) ∧ archived =
        .ok (some ⟨arranged place ties (kept ties limit (archivedMatches libraries dir query entries)),n⟩)) := by
  rcases commits_attempt.mp committed with ⟨found,rfl,executed⟩ | ⟨error,rfl,_,rfl⟩
  · unfold search_archives_fallback at executed
    cases archive_dir with
    | none =>
      obtain ⟨rfl,rfl⟩ := commits_pure.mp executed
      exact ⟨rfl,fun response => .inl rfl⟩
    | some dir =>
      obtain ⟨entries,m,listed,searching⟩ := commits_bind.mp executed
      have unchanged : m = s := commits_manifest_list listed
      subst unchanged
      split at searching
      · obtain ⟨rfl,rfl⟩ := commits_pure.mp searching
        exact ⟨rfl,fun response => .inl rfl⟩
      · obtain ⟨result,m',lifted,last⟩ := commits_bind.mp searching
        obtain ⟨searched,rfl⟩ := commits_lift.mp lifted
        obtain ⟨rfl,rfl⟩ := commits_pure.mp last
        have legible := search_archives_legible searched
        obtain ⟨n,same⟩ := search_archives_eq libraries ties query limit legible
        rw [searched] at same
        cases Except.ok.inj same
        exact ⟨rfl,fun response => .inr ⟨dir,entries,n,rfl,listed,legible,rfl⟩⟩
  · exact ⟨rfl,fun response => .inl rfl⟩

variable (libraries ties query) in
theorem fallback_commits (limit : Nat) {s : Db} {dir : ArchiveDir} {entries : List ArchiveManifestEntry}
    (listed : Commits ArchiveManifestStore.list s entries s) (legible : ∀ entry ∈ entries, Legible dir entry) (some_entry : entries ≠ []) :
    ∃ n, Commits (attempt (search_archives_fallback libraries ties (some dir) query limit)) s
      (.ok (some ⟨arranged place ties (kept ties limit (archivedMatches libraries dir query entries)),n⟩)) s := by
  obtain ⟨n,searched⟩ := search_archives_eq libraries ties query limit legible
  refine ⟨n,commits_attempt.mpr (.inl ⟨_,rfl,?_⟩)⟩
  refine commits_bind.mpr ⟨entries,s,listed,?_⟩
  rw [if_neg some_entry]
  exact commits_bind.mpr ⟨_,s,commits_lift.mpr ⟨searched,rfl⟩,commits_pure.mpr ⟨rfl,rfl⟩⟩

/-- An archived match can be among the first results: fewer than the limit of live
    results and higher matches are ahead of it, and fewer than the limit of matches
    scanned earlier are at least as high. -/
def MayShow (limit : Nat) (live stream : List SearchResult) (m : SearchResult) : Prop :=
  ahead place live m + stream.countP (fun r => place m < place r) < limit ∧
    ∃ before after, stream = before ++ m :: after ∧ before.countP (fun r => place m ≤ place r) < limit

end ArchiveSearch

/-- No archived match that can be shown fails a filter of the query, and no row that
    a period query lists among the first by comparing texts lies outside the period. -/
structure Screened (libraries : SearchLibraries) (ctx : MemoryCtx) (archive_dir : Option ArchiveDir) (query : MemoryQuery)
    (now : DateTime) (e : Engine) : Prop where
  archived : ∀ live dir entries, Commits (Query.execute_query libraries ctx query now) e (.Executed live) e →
    query.has_search = true → query.include_archives = true → archive_dir = some dir →
      Commits ArchiveManifestStore.list e.storage entries e.storage → (∀ entry ∈ entries, Legible dir entry) →
        ∀ m ∈ archivedMatches libraries dir query entries,
          MayShow query.effective_limit live.results (archivedMatches libraries dir query entries) m → query.Answers e.scope_tree now m.fact
  listed : ∀ live scope_ids start stop, Commits (Query.execute_query libraries ctx query now) e (.Executed live) e →
    query.has_search = false → Query.period query = some (start,stop) →
      Query.resolve_query_scope_ids e.scope_tree query.scope = some scope_ids →
        ∀ f ∈ e.storage.facts.rows, Query.admitsByText query scope_ids start stop f = true →
          e.storage.facts.rows.countP (fun g => Query.admitsByText query scope_ids start stop g &&
            decide (Query.listingKey f < Query.listingKey g)) < query.effective_limit → f.Overlaps start stop

/-- In a period that starts by the year 9999 the texts admit no row outside it. -/
theorem overlaps_of_text {start stop : DateTime} (parsed : Parsed start) (parsed' : Parsed stop) (early : start.year ≤ 9999) {f : Fact}
    (times : ∀ t, f.t_valid = some t ∨ f.t_invalid = some t → Parsed t ∧ t.year ≤ 9999)
    (admitted : FactStore.overlapsByText start stop f = true) : f.Overlaps start stop := by
  simp only [FactStore.overlapsByText,Bool.and_eq_true,Option.all_eq_true] at admitted
  constructor
  · intro t set
    obtain ⟨read,bounded⟩ := times t (.inl set)
    by_cases late : 9999 < stop.year
    · exact (lt_iff t stop).mpr (.inl (by omega))
    · exact (textLt_iff_lt read parsed' (iff_of_false (by omega) late)).mp (admitted.1 t set)
  · intro t set
    obtain ⟨read,bounded⟩ := times t (.inr set)
    exact (textLt_iff_lt parsed read (iff_of_false (by omega) (by omega))).mp (admitted.2 t set)

section response
variable {libraries : SearchLibraries} {ctx : MemoryCtx} {query : MemoryQuery} {now : DateTime} {e e' : Engine}
  {ties : Shuffle SearchResult} {archive_dir : Option ArchiveDir} {response : QueryResponse}

/-- The response of a query: nothing for a missing scope, the live results alone, or
    these and the archived matches ranked together. -/
theorem commits_response (committed : Commits (execute_query ctx libraries ties archive_dir query now) e response e') :
    response.results = [] ∨ ∃ live, Commits (Query.execute_query libraries ctx query now) e (.Executed live) e ∧
      (response = live ∨ ∃ dir entries, query.has_search = true ∧ query.include_archives = true ∧ archive_dir = some dir ∧
        Commits ArchiveManifestStore.list e.storage entries e.storage ∧ (∀ entry ∈ entries, Legible dir entry) ∧
          response.results = merged place ties query.effective_limit live.results (archivedMatches libraries dir query entries)) := by
  obtain ⟨outcome,m,executed,ending⟩ := commits_bind.mp committed
  have unchanged : m = e := (Query.commits_execute_query.mp executed).1
  subst unchanged
  cases outcome with
  | ScopeMissing =>
    obtain ⟨rfl,_⟩ := commits_pure.mp ending
    exact .inl rfl
  | Executed live =>
    refine .inr ⟨live,executed,?_⟩
    dsimp only at ending
    split at ending
    · rename_i both
      obtain ⟨has_search,include_archives⟩ := Bool.and_eq_true_iff.mp both
      obtain ⟨archived,_,ported,last⟩ := commits_bind.mp ending
      obtain ⟨db,attempted,_⟩ := commits_port.mp ported
      obtain ⟨rfl,_⟩ := commits_pure.mp last
      rcases (fallback_cases attempted).2 live with same | ⟨dir,entries,n,set,listed,legible,rfl⟩
      · exact .inl same
      · exact .inr ⟨dir,entries,has_search,include_archives,set,listed,legible,rfl⟩
    · exact .inl (commits_pure.mp ending).1

/-- Every ranking of the live results and the archived matches is a response. -/
theorem response_commits {live : QueryResponse} {dir : ArchiveDir} {entries : List ArchiveManifestEntry}
    (executed : Commits (Query.execute_query libraries ctx query now) e (.Executed live) e) (has_search : query.has_search = true)
    (include_archives : query.include_archives = true) (listed : Commits ArchiveManifestStore.list e.storage entries e.storage)
    (legible : ∀ entry ∈ entries, Legible dir entry) (some_entry : entries ≠ []) (ties : Shuffle SearchResult) :
    ∃ response, Commits (execute_query ctx libraries ties (some dir) query now) e response e ∧
      response.results = merged place ties query.effective_limit live.results (archivedMatches libraries dir query entries) := by
  obtain ⟨n,attempted⟩ := fallback_commits libraries query ties query.effective_limit listed legible some_entry
  have both : (query.has_search && query.include_archives) = true := by rw [has_search,include_archives]; rfl
  refine ⟨merge_archives ties query.effective_limit live (.ok (some ⟨_,n⟩)),commits_bind.mpr ⟨.Executed live,e,executed,?_⟩,rfl⟩
  dsimp only
  rw [if_pos both]
  exact commits_bind.mpr ⟨_,e,commits_port.mpr ⟨e.storage,attempted,rfl⟩,commits_pure.mpr ⟨rfl,rfl⟩⟩

/-- A period query without a search term runs the listing, with no cutoff. -/
theorem period_run {live : QueryResponse} {scope_ids : Option (List Int)} {start stop : DateTime}
    (executed : Commits (Query.execute_query libraries ctx query now) e (.Executed live) e) (has_search : query.has_search = false)
    (bounds : Query.period query = some (start,stop)) (resolved : Query.resolve_query_scope_ids e.scope_tree query.scope = some scope_ids) :
    query.has_period = true ∧ Query.effective_cutoff query now = none ∧ Commits (Query.execute_store_path ctx.backend libraries query scope_ids
      (Query.effective_cutoff query now) query.effective_limit) e.storage live e.storage := by
  obtain ⟨_,_,valid,⟨_,none_missing⟩ | ⟨_,_,found,same,run⟩⟩ := Query.commits_execute_query.mp executed
  · cases none_missing
  cases same
  rw [resolved] at found
  cases found
  unfold Query.execute_path at run
  rw [if_neg (by rw [has_search]; exact Bool.false_ne_true)] at run
  have timed : query.has_period = true := (Query.validated_period valid).1.mpr (by rw [bounds]; rfl)
  exact ⟨timed,Query.period_cutoff valid timed now,run⟩

/-- Live results of the listing, by the places of the rows. -/
theorem listed_answers {live : QueryResponse} (executed : Commits (Query.execute_query libraries ctx query now) e (.Executed live) e)
    (has_search : query.has_search = false) (screened : ∀ scope_ids start stop, Query.period query = some (start,stop) →
      Query.resolve_query_scope_ids e.scope_tree query.scope = some scope_ids →
        ∀ f ∈ e.storage.facts.rows, Query.admitsByText query scope_ids start stop f = true →
          e.storage.facts.rows.countP (fun g => Query.admitsByText query scope_ids start stop g &&
            decide (Query.listingKey f < Query.listingKey g)) < query.effective_limit → f.Overlaps start stop) :
    ∀ r ∈ live.results, query.Answers e.scope_tree now r.fact := by
  obtain ⟨_,_,valid,⟨_,none_missing⟩ | ⟨scope_ids,_,resolved,same,run⟩⟩ := Query.commits_execute_query.mp executed
  · cases none_missing
  cases same
  have nonempty := Query.resolved_ne_nil resolved
  intro r shown
  refine ⟨scope_ids,resolved,?_⟩
  cases bounds : Query.period query with
  | none =>
    unfold Query.execute_path at run
    rw [if_neg (by rw [has_search]; exact Bool.false_ne_true)] at run
    exact (Query.execute_store_path_satisfied valid nonempty bounds run).2 r shown
  | some period =>
    obtain ⟨start,stop⟩ := period
    obtain ⟨timed,open_,run⟩ := period_run executed has_search bounds resolved
    obtain ⟨member,admitted,place⟩ := ((Query.mem_store_period bounds timed open_ run).2 r.fact).mp ⟨r,shown,rfl⟩
    have overlaps := screened scope_ids start stop bounds resolved r.fact member admitted place
    obtain ⟨_,_,placed,typed,important,pinned⟩ := (Query.admitsByText_iff nonempty).mp admitted
    refine ⟨placed,typed,(Query.timely_iff valid).mpr ⟨?_,?_⟩,important,pinned⟩
    · rw [open_]
      exact fun cutoff set => by cases set
    · rw [bounds]
      exact fun found set => by cases set; exact overlaps

theorem live_commits {live : QueryResponse} (executed : Commits (Query.execute_query libraries ctx query now) e (.Executed live) e)
    (has_search : query.has_search = false) (ties : Shuffle SearchResult) :
    Commits (execute_query ctx libraries ties archive_dir query now) e live e := by
  have neither : (query.has_search && query.include_archives) ≠ true := by simp [has_search]
  refine commits_bind.mpr ⟨.Executed live,e,executed,?_⟩
  dsimp only
  rw [if_neg neither]
  exact commits_pure.mpr ⟨rfl,rfl⟩

/-- Live results of the channels. -/
theorem channel_answers {live : QueryResponse} (executed : Commits (Query.execute_query libraries ctx query now) e (.Executed live) e)
    (has_search : query.has_search = true) :
    ∀ r ∈ live.results, r.match_type ≠ .Archive ∧ query.Answers e.scope_tree now r.fact := by
  obtain ⟨_,_,valid,⟨_,none_missing⟩ | ⟨scope_ids,_,resolved,same,run⟩⟩ := Query.commits_execute_query.mp executed
  · cases none_missing
  cases same
  intro r listed
  obtain ⟨live,satisfied⟩ := Query.searched_answers valid has_search run r listed
  exact ⟨live,scope_ids,resolved,satisfied⟩

/-- Every fact of every response passes the filters of the query exactly when the
    archived matches and the rows listed by text that can be shown do. -/
theorem response_answers_iff : (∀ (ties : Shuffle SearchResult) (response : QueryResponse) (e' : Engine),
    Commits (execute_query ctx libraries ties archive_dir query now) e response e' →
      ∀ r ∈ response.results, query.Answers e.scope_tree now r.fact) ↔ Screened libraries ctx archive_dir query now e := by
  constructor
  · intro answers
    constructor
    · intro live dir entries executed has_search include_archives set listed legible m matched shown
      have some_entry : entries ≠ [] := by
        rintro rfl
        cases matched
      have apart : m ∉ live.results := fun inside => (channel_answers executed has_search m inside).1 (mem_archivedMatches matched).1
      obtain ⟨ties,inside⟩ := (mem_merged_iff apart fun r listed => (mem_archivedMatches listed).2).mpr shown
      obtain ⟨response,committed,results⟩ := response_commits executed has_search include_archives listed legible some_entry ties
      rw [set] at answers
      exact answers ties response e committed m (by rw [results]; exact inside)
    · intro live scope_ids start stop executed has_search bounds resolved f member admitted place
      obtain ⟨timed,open_,run⟩ := period_run executed has_search bounds resolved
      obtain ⟨r,shown,rfl⟩ := ((Query.mem_store_period bounds timed open_ run).2 f).mpr ⟨member,admitted,place⟩
      obtain ⟨_,_,satisfied⟩ := answers (Shuffle.keep _) live e (live_commits executed has_search _) r shown
      have valid := (Query.commits_execute_query.mp executed).2.2.1
      exact ((Query.timely_iff valid).mp satisfied.timely).2 (start,stop) bounds
  · intro screened ties response e' committed r shown
    rcases commits_response committed with empty | ⟨live,executed,rfl | ⟨dir,entries,has_search,include_archives,set,listed,legible,results⟩⟩
    · rw [empty] at shown
      cases shown
    · cases has_search : query.has_search with
      | true => exact (channel_answers executed has_search r shown).2
      | false =>
        exact listed_answers executed has_search (fun scope_ids start stop => screened.listed _ scope_ids start stop executed has_search) r shown
    · rw [results] at shown
      have either := (mem_sortBy place ties).mp (List.mem_of_mem_take shown)
      by_cases inside : r ∈ live.results
      · exact (channel_answers executed has_search r inside).2
      · have matched : r ∈ archivedMatches libraries dir query entries :=
          (holds_foldl _ _ _ _).subset (mem_kept.mp ((List.mem_append.mp either).resolve_left inside))
        have comparable : ∀ m ∈ archivedMatches libraries dir query entries, place m ≠ ⊥ := fun m listed => (mem_archivedMatches listed).2
        have may := (mem_merged_iff inside comparable).mp ⟨ties,shown⟩
        exact screened.archived live dir entries executed has_search include_archives set listed legible r matched may

end response
namespace Sample

/-- No full-text matches, no similarity, and every order as it comes. -/
def libraries : SearchLibraries where
  bm25 := fun _ _ _ => none
  cosine_similarity := fun _ _ => 0
  to_lowercase := id
  hnsw := none
  rows := Shuffle.keep _
  scores := Shuffle.keep _

/-- The first fact expires and moves to a file; it was never pinned. -/
def afterArchive (test : ArchiveDir → Engine → Bool) : Bool :=
  Ends (port (FactStore.expire 1 moment)) engine fun _ e₁ =>
    e₁.storage.facts.rows.any fun f => f.id == 1 && !f.is_pinned &&
      Ends (archive ctx (fun _ => .ok ("a.pak",1,"")) ⟨{ moment with year := 2027 },1⟩ moment) e₁ fun _ e₂ =>
        test (fun path => if path = "a.pak" then some (.ok ⟨1,[f],[]⟩) else none) e₂

/-- A search for pinned facts that also reads the archives. -/
def pinnedOnly : MemoryQuery := { text := some "a", pinned_only := true, include_archives := true }

def leaked : Bool := afterArchive fun dir e => Ends (execute_query ctx libraries (Shuffle.keep _) (some dir) pinnedOnly moment) e
  fun response _ => response.results.any fun r => !r.fact.is_pinned

end Sample

/-- A query for pinned facts gets an archived fact that is not pinned. -/
theorem archived_fact_unfiltered : ¬ ∀ (libraries : SearchLibraries) (ctx : MemoryCtx) (ties : Shuffle SearchResult)
    (archive_dir : Option ArchiveDir) (query : MemoryQuery) (now : DateTime) (e e' : Engine) (response : QueryResponse),
    Commits (execute_query ctx libraries ties archive_dir query now) e response e' →
      ∀ r ∈ response.results, query.Answers e.scope_tree now r.fact := by
  intro claim
  have ran : Sample.leaked = true := by decide +kernel
  unfold Sample.leaked Sample.afterArchive at ran
  obtain ⟨_,e₁,_,ran⟩ := commits_of_ends ran
  obtain ⟨f,_,ran⟩ := List.any_eq_true.mp ran
  obtain ⟨_,ran⟩ := Bool.and_eq_true_iff.mp ran
  obtain ⟨_,e₂,_,ran⟩ := commits_of_ends ran
  obtain ⟨response,e₃,answered,ran⟩ := commits_of_ends ran
  obtain ⟨r,shown,unpinned⟩ := List.any_eq_true.mp ran
  obtain ⟨_,_,satisfied⟩ := claim _ _ _ _ _ _ _ _ _ answered r shown
  rw [satisfied.pinned rfl] at unpinned
  cases unpinned

end MemoryEngine
