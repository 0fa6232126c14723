import MemoryEngine.QueryFilters
import MemoryEngine.Archive
import MemoryEngine.TimeText

/-! The archive fallback. A query that asks for archives also scans the files of the
manifest; the best matches join the live results and the whole is ranked and cut
again. Only the type filter of the query is applied to what the files hold. -/

namespace MemoryEngine
open Time KeyedTable Transaction Ranking Search

/-- The files below the archive directory, by relative path: what reading one as an
    archive gives, none where there is no file. -/
abbrev ArchiveDir := String → Option (Except MemoryError ArchivePak)

structure ArchiveSearchResult where
  results : List SearchResult
  paks_scanned : Nat

namespace ArchiveManifestStore

def Readable (entry : ArchiveManifestEntry) : Prop :=
  entry.created_at.Readable ∧ entry.t_created_min.Readable ∧ entry.t_created_max.Readable

instance (entry : ArchiveManifestEntry) : Decidable (Readable entry) := inferInstanceAs (Decidable (_ ∧ _))

/-- The manifest by the texts of the creation times. -/
def list : Sql (List ArchiveManifestEntry) := do
  let rows ← query fun t => descending (fun entry => OrderDual.toDual entry.created_at.to_rfc3339) t.archive_manifest.rows
  readRows Readable rows

end ArchiveManifestStore

namespace ArchiveSearch
variable (libraries : SearchLibraries) (ties : Shuffle SearchResult)

/-- No component of the path leads out of the archive directory. -/
def is_within_archive_dir (pak_path : String) : Bool :=
  pak_path.toList.head? != some '/' && (segments pak_path).all (fun component => component != "..")

/-- No bound of the manifest excludes a match of any query. -/
def entry_is_prunable (_entry : ArchiveManifestEntry) (_query : MemoryQuery) : Bool := false

def contains_text (content text : String) : Bool := decide (text.toList <:+: content.toList)

/-- The similarity of a fact, where both vectors have one length and it is positive. -/
def cosine_score (query : MemoryQuery) (fact : Fact) : Option F64 :=
  match query.embedding with
  | none => none
  | some query_emb =>
    if query_emb.length = fact.embedding.length ∧ fact.embedding ≠ [] then
      let cos := (libraries.cosine_similarity query_emb fact.embedding).toF64
      if (F64.ofRat 0).lt cos then some cos else none
    else none

/-- One for the text plus the similarity, none for a fact that matches neither. -/
def match_score (query : MemoryQuery) (fact : Fact) : Option F64 :=
  if query.text.isNone && query.embedding.isNone then some (F64.ofRat 1) else
  let hit := (query.text.map libraries.to_lowercase).any (fun text_lower => contains_text (libraries.to_lowercase fact.content) text_lower)
  let score := if hit then (F64.ofRat 0).add (F64.ofRat 1) else F64.ofRat 0
  match cosine_score libraries query fact with
  | some cos => some (score.add cos)
  | none => if hit then some score else none

def make_result (fact : Fact) (score : F64) : SearchResult := ⟨fact,score,.Archive⟩

def push_bounded (heap : List SearchResult) (fact : Fact) (score : F64) (limit : Nat) : List SearchResult :=
  if limit = 0 then heap else
  if heap.length < limit then push (make_result fact score) heap else
  match peek (fun r => r.score.rank) ties heap with
  | some least => if least.score.lt score then push (make_result fact score) (pop (fun r => r.score.rank) ties heap) else heap
  | none => heap

def scan_fact (query : MemoryQuery) (limit : Nat) (heap : List SearchResult) (fact : Fact) : List SearchResult :=
  if query.fact_type.all (fun ft => fact.fact_type == ft) then
    match match_score libraries query fact with
    | some score => push_bounded ties heap fact score limit
    | none => heap
  else heap

/-- Scan one file; a path that leaves the directory or names no file is skipped. -/
def scan_entry (dir : ArchiveDir) (query : MemoryQuery) (limit : Nat) (scan : List SearchResult × Nat) (entry : ArchiveManifestEntry) :
    Except MemoryError (List SearchResult × Nat) :=
  if !is_within_archive_dir entry.pak_path || entry_is_prunable entry query then .ok scan else
  match dir entry.pak_path with
  | none => .ok scan
  | some (.error e) => .error e
  | some (.ok pak) => .ok (pak.facts.foldl (scan_fact libraries ties query limit) scan.1,scan.2 + 1)

def search_archives (dir : ArchiveDir) (manifest_entries : List ArchiveManifestEntry) (query : MemoryQuery) (limit : Nat) :
    Except MemoryError ArchiveSearchResult := do
  let scan ← manifest_entries.foldlM (scan_entry libraries ties dir query limit) ([],0)
  return ⟨arranged (fun r => r.score.rank) ties scan.1,scan.2⟩

/-- None without an archive directory or without entries. -/
def search_archives_fallback (archive_dir : Option ArchiveDir) (query : MemoryQuery) (limit : Nat) : Sql (Option ArchiveSearchResult) :=
  match archive_dir with
  | none => return none
  | some dir => do
    let entries ← ArchiveManifestStore.list
    if entries = [] then return none else do
      let result ← search_archives libraries ties dir entries query limit
      return some result

/-- Join the archived matches with the live results. A failed scan changes nothing. -/
def merge_archives (limit : Nat) (response : QueryResponse) : Except MemoryError (Option ArchiveSearchResult) → QueryResponse
  | .ok (some archive_results) =>
    ⟨(sortBy (fun r => r.score.rank) ties (response.results ++ archive_results.results)).take limit,
      { response.diagnostics with archive_paks_scanned := archive_results.paks_scanned }⟩
  | .ok none => response
  | .error _ => response

end ArchiveSearch

/-- The query of the engine. -/
def execute_query (ctx : MemoryCtx) (libraries : SearchLibraries) (ties : Shuffle SearchResult) (archive_dir : Option ArchiveDir)
    (query : MemoryQuery) (now : DateTime) : Op QueryResponse := do
  match ← Query.execute_query libraries ctx query now with
  | .ScopeMissing => return ⟨[],{}⟩
  | .Executed response =>
    if query.has_search && query.include_archives then do
      let limit := query.effective_limit
      let archived ← port (attempt (ArchiveSearch.search_archives_fallback libraries ties archive_dir query limit))
      return ArchiveSearch.merge_archives ties limit response archived
    else return response

namespace ArchiveSearch
variable {libraries : SearchLibraries} {ties : Shuffle SearchResult} {dir : ArchiveDir} {query : MemoryQuery}

/-- Where a result stands in the final ranking. -/
def place (r : SearchResult) : WithBot SqlReal := r.score.rank

variable (libraries query) in
/-- The match of an archived fact. -/
def matchOf (fact : Fact) : Option SearchResult :=
  if query.fact_type.all (fun ft => fact.fact_type == ft) then (match_score libraries query fact).map (make_result fact) else none

variable (dir) in
/-- The facts that the scan of an entry reads. -/
def factsOf (entry : ArchiveManifestEntry) : List Fact :=
  if is_within_archive_dir entry.pak_path then
    match dir entry.pak_path with
    | some (.ok pak) => pak.facts
    | _ => []
  else []

variable (libraries dir query) in
/-- The archived matches, in the order of the scan. -/
def archivedMatches (entries : List ArchiveManifestEntry) : List SearchResult :=
  (entries.flatMap (factsOf dir)).filterMap (matchOf libraries query)

variable (dir) in
/-- The file of an entry, if there is one, reads back. -/
def Legible (entry : ArchiveManifestEntry) : Prop :=
  is_within_archive_dir entry.pak_path = true → ∀ e, dir entry.pak_path ≠ some (.error e)

theorem one_of_zero : (F64.ofRat 0).add (F64.ofRat 1) = F64.ofRat 1 := by decide +kernel

/-- Scores are numbers. -/
theorem match_score_ne_nan {fact : Fact} {score : F64} (found : match_score libraries query fact = some score) : score ≠ .nan := by
  unfold match_score at found
  split at found
  · cases Option.some.inj found
    exact F64.noConfusion
  · rw [one_of_zero] at found
    have based : ∀ hit : Bool, ∃ q : ℚ, (if hit then F64.ofRat 1 else F64.ofRat 0) = F64.ofRat q := by
      intro hit
      cases hit
      · exact ⟨0,rfl⟩
      · exact ⟨1,rfl⟩
    dsimp only at found
    split at found
    · rename_i cos similar
      cases Option.some.inj found
      have positive : cos ≠ .nan := by
        unfold cosine_score at similar
        split at similar
        · cases similar
        · split at similar
          · dsimp only at similar
            split at similar
            · rename_i above
              cases Option.some.inj similar
              exact F64.lt_number above
            · cases similar
          · cases similar
      obtain ⟨q,base⟩ := based ((query.text.map libraries.to_lowercase).any
        (fun text_lower => contains_text (libraries.to_lowercase fact.content) text_lower))
      rw [base]
      exact F64.add_ne_nan positive
    · split at found
      · cases Option.some.inj found
        exact F64.noConfusion
      · cases found

theorem matchOf_some {fact : Fact} {m : SearchResult} (found : matchOf libraries query fact = some m) :
    m.fact = fact ∧ m.match_type = .Archive ∧ place m ≠ ⊥ := by
  unfold matchOf at found
  split at found
  · obtain ⟨score,scored,rfl⟩ := Option.map_eq_some_iff.mp found
    exact ⟨rfl,rfl,mt F64.rank_eq_bot.mp (match_score_ne_nan scored)⟩
  · cases found

theorem mem_archivedMatches {entries : List ArchiveManifestEntry} {m : SearchResult}
    (listed : m ∈ archivedMatches libraries dir query entries) : m.match_type = .Archive ∧ place m ≠ ⊥ := by
  obtain ⟨fact,_,found⟩ := List.mem_filterMap.mp listed
  exact (matchOf_some found).2

/-- The heap keeps what a bounded heap of comparable matches keeps. -/
theorem push_bounded_eq {heap : List SearchResult} {fact : Fact} {score : F64} {limit : Nat} (comparable : ∀ r ∈ heap, place r ≠ ⊥) :
    push_bounded ties heap fact score limit = retain place ties limit heap (make_result fact score) := by
  unfold push_bounded retain
  by_cases zero : limit = 0
  · rw [if_pos zero,if_pos zero]
  rw [if_neg zero,if_neg zero]
  by_cases room : heap.length < limit
  · rw [if_pos room,if_pos room]
  rw [if_neg room,if_neg room]
  change (match peek place ties heap with | some least => _ | none => _) = _
  cases found : peek place ties heap with
  | none => rfl
  | some least =>
    have inside : least ∈ heap := (peek_pop found).1.mem_iff.mp (by simp)
    have number : least.score ≠ .nan := mt F64.rank_eq_bot.mpr (comparable least inside)
    have same : least.score.lt score = true ↔ place least < place (make_result fact score) := F64.lt_iff_rank number
    dsimp only
    by_cases higher : place least < place (make_result fact score)
    · rw [if_pos higher,if_pos (same.mpr higher)]
      rfl
    · rw [if_neg higher,if_neg (mt same.mp higher)]

/-- The heap after a stream of matches. -/
abbrev kept (ties : Shuffle SearchResult) (limit : Nat) (stream : List SearchResult) : List SearchResult :=
  stream.foldl (retain place ties limit) []

theorem kept_comparable {limit : Nat} {stream : List SearchResult} (comparable : ∀ r ∈ stream, place r ≠ ⊥) :
    ∀ r ∈ kept ties limit stream, place r ≠ ⊥ := fun r listed => comparable r ((holds_foldl place ties limit stream).subset listed)

theorem scan_fact_eq {limit : Nat} {stream : List SearchResult} (comparable : ∀ r ∈ stream, place r ≠ ⊥) (fact : Fact) :
    scan_fact libraries ties query limit (kept ties limit stream) fact =
      kept ties limit (stream ++ (matchOf libraries query fact).toList) := by
  unfold scan_fact matchOf
  by_cases typed : query.fact_type.all (fun ft => fact.fact_type == ft) = true
  · rw [if_pos typed,if_pos typed]
    cases match_score libraries query fact with
    | none => simp
    | some score =>
      dsimp only
      rw [push_bounded_eq (kept_comparable comparable)]
      simp [kept,List.foldl_append]
  · rw [if_neg typed,if_neg typed]
    simp

theorem scan_facts_eq {limit : Nat} (facts : List Fact) {stream : List SearchResult} (comparable : ∀ r ∈ stream, place r ≠ ⊥) :
    facts.foldl (scan_fact libraries ties query limit) (kept ties limit stream) =
      kept ties limit (stream ++ facts.filterMap (matchOf libraries query)) := by
  induction facts generalizing stream with
  | nil => simp
  | cons fact rest ih =>
    rw [List.foldl_cons,scan_fact_eq comparable,ih]
    · cases found : matchOf libraries query fact <;> simp [found]
    · intro r listed
      rcases List.mem_append.mp listed with before | new
      · exact comparable r before
      · exact (matchOf_some (by simpa using new)).2.2

variable (libraries ties query) in
theorem scan_entry_eq (limit n : Nat) {stream : List SearchResult} (comparable : ∀ r ∈ stream, place r ≠ ⊥)
    {entry : ArchiveManifestEntry} (legible : Legible dir entry) : ∃ n', scan_entry libraries ties dir query limit (kept ties limit stream,n) entry =
      .ok (kept ties limit (stream ++ (factsOf dir entry).filterMap (matchOf libraries query)),n') := by
  unfold scan_entry factsOf entry_is_prunable
  cases within : is_within_archive_dir entry.pak_path with
  | false => exact ⟨n,by simp⟩
  | true =>
    cases file : dir entry.pak_path with
    | none => exact ⟨n,by simp⟩
    | some read =>
      cases read with
      | error e => exact absurd file (legible within e)
      | ok pak => exact ⟨n + 1,by simp [scan_facts_eq pak.facts comparable]⟩

theorem scan_entry_legible {limit : Nat} {scan next : List SearchResult × Nat} {entry : ArchiveManifestEntry}
    (scanned : scan_entry libraries ties dir query limit scan entry = .ok next) : Legible dir entry := by
  intro within e failed
  unfold scan_entry entry_is_prunable at scanned
  rw [within,failed] at scanned
  cases scanned

theorem comparable_append {stream : List SearchResult} (comparable : ∀ r ∈ stream, place r ≠ ⊥) (facts : List Fact) :
    ∀ r ∈ stream ++ facts.filterMap (matchOf libraries query), place r ≠ ⊥ := by
  intro r listed
  rcases List.mem_append.mp listed with before | new
  · exact comparable r before
  · obtain ⟨fact,_,found⟩ := List.mem_filterMap.mp new
    exact (matchOf_some found).2.2

variable (libraries ties query) in
/-- The scan of a manifest whose files read back keeps the best of all matches. -/
theorem scan_entries_eq (limit n : Nat) (entries : List ArchiveManifestEntry) {stream : List SearchResult}
    (comparable : ∀ r ∈ stream, place r ≠ ⊥) (legible : ∀ entry ∈ entries, Legible dir entry) :
    ∃ n', entries.foldlM (scan_entry libraries ties dir query limit) (kept ties limit stream,n) =
      .ok (kept ties limit (stream ++ archivedMatches libraries dir query entries),n') := by
  induction entries generalizing stream n with
  | nil => exact ⟨n,by simp [archivedMatches,pure,Except.pure]⟩
  | cons entry rest ih =>
    obtain ⟨here,later⟩ := List.forall_mem_cons.mp legible
    obtain ⟨n₁,first⟩ := scan_entry_eq libraries ties query limit n comparable here
    obtain ⟨n₂,tail⟩ := ih n₁ (comparable_append comparable (factsOf dir entry)) later
    refine ⟨n₂,?_⟩
    rw [List.foldlM_cons,first]
    change rest.foldlM _ _ = _
    rw [tail]
    simp [archivedMatches,List.append_assoc]

theorem scan_entries_legible {limit : Nat} {entries : List ArchiveManifestEntry} {scan last : List SearchResult × Nat}
    (scanned : entries.foldlM (scan_entry libraries ties dir query limit) scan = .ok last) : ∀ entry ∈ entries, Legible dir entry := by
  induction entries generalizing scan with
  | nil =>
    intro entry listed
    cases listed
  | cons entry rest ih =>
    rw [List.foldlM_cons] at scanned
    cases first : scan_entry libraries ties dir query limit scan entry with
    | error e =>
      rw [first] at scanned
      cases scanned
    | ok next =>
      rw [first] at scanned
      exact List.forall_mem_cons.mpr ⟨scan_entry_legible first,ih scanned⟩

variable (libraries ties query) in
theorem search_archives_eq (limit : Nat) {entries : List ArchiveManifestEntry} (legible : ∀ entry ∈ entries, Legible dir entry) :
    ∃ n, search_archives libraries ties dir entries query limit =
      .ok ⟨arranged place ties (kept ties limit (archivedMatches libraries dir query entries)),n⟩ := by
  have none_yet : ∀ r ∈ ([] : List SearchResult), place r ≠ ⊥ := fun r listed => by cases listed
  obtain ⟨n,scanned⟩ := scan_entries_eq libraries ties query limit 0 entries none_yet legible
  refine ⟨n,?_⟩
  change (entries.foldlM (scan_entry libraries ties dir query limit) ([],0)) = _ at scanned
  unfold search_archives
  rw [scanned]
  rfl

theorem search_archives_legible {limit : Nat} {entries : List ArchiveManifestEntry} {found : ArchiveSearchResult}
    (searched : search_archives libraries ties dir entries query limit = .ok found) : ∀ entry ∈ entries, Legible dir entry := by
  unfold search_archives at searched
  cases scanned : entries.foldlM (scan_entry libraries ties dir query limit) ([],0) with
  | error e =>
    rw [scanned] at searched
    cases searched
  | ok scan => exact scan_entries_legible scanned

/-- Ranking what the heap holds leaves it the best of the stream. -/
theorem top_arranged (ties : Shuffle SearchResult) (limit : Nat) (stream : List SearchResult) :
    Top place limit stream (arranged place ties (kept ties limit stream)) := by
  obtain ⟨bounded,dropped,same,low⟩ := holds_foldl place ties limit stream
  have ranked := arranged_perm place ties (kept ties limit stream)
  refine ⟨descending_sorted place _,by rw [ranked.length_eq]; exact bounded,dropped,(ranked.append_right dropped).trans same,fun d gone => ?_⟩
  obtain ⟨full,below⟩ := low d gone
  refine ⟨by rw [ranked.length_eq]; exact full,fun x listed => below x (ranked.mem_iff.mp listed)⟩

/-- A scan returns when every file of the manifest within the directory reads back, and what it
    returns are the best of all the matches in those files: no more than the limit, ranked, each a
    number, and nothing is left out while there is room or that scores above what is returned. -/
theorem search_archives_best (libraries : SearchLibraries) (ties : Shuffle SearchResult) (dir : ArchiveDir)
    (entries : List ArchiveManifestEntry) (query : MemoryQuery) (limit : Nat) :
    ((∃ found, search_archives libraries ties dir entries query limit = .ok found) ↔ ∀ entry ∈ entries, Legible dir entry) ∧
    ∀ found, search_archives libraries ties dir entries query limit = .ok found →
      found.results.length ≤ limit ∧ found.results.Pairwise (fun a b => place b ≤ place a) ∧
      (∀ r ∈ found.results, r.score ≠ .nan ∧ ∃ entry ∈ entries, ∃ fact ∈ factsOf dir entry, matchOf libraries query fact = some r) ∧
      ∃ dropped, (found.results ++ dropped).Perm (archivedMatches libraries dir query entries) ∧
        ∀ d ∈ dropped, found.results.length = limit ∧ ∀ r ∈ found.results, place d ≤ place r := by
  constructor
  · constructor
    · rintro ⟨found,searched⟩
      exact search_archives_legible searched
    · intro legible
      obtain ⟨n,searched⟩ := search_archives_eq libraries ties query limit legible
      exact ⟨_,searched⟩
  · intro found searched
    obtain ⟨n,same⟩ := search_archives_eq libraries ties query limit (search_archives_legible searched)
    obtain rfl := Except.ok.inj (searched.symm.trans same)
    obtain ⟨sorted,bounded,dropped,parts,low⟩ := top_arranged ties limit (archivedMatches libraries dir query entries)
    refine ⟨bounded,sorted,fun r listed => ?_,dropped,parts,low⟩
    have matched : r ∈ archivedMatches libraries dir query entries := parts.mem_iff.mp (List.mem_append_left _ listed)
    refine ⟨mt F64.rank_eq_bot.mpr (mem_archivedMatches matched).2,?_⟩
    obtain ⟨fact,read,found⟩ := List.mem_filterMap.mp matched
    obtain ⟨entry,among,inside⟩ := List.mem_flatMap.mp read
    exact ⟨entry,among,fact,inside,found⟩

end ArchiveSearch
end MemoryEngine
