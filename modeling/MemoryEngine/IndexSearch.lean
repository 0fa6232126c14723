import MemoryEngine.IndexVectors
import MemoryEngine.QueryRanking
import Mathlib.Data.List.Nodup
import Mathlib.Data.List.Perm.Subperm

/-! What a search through the vector index returns, for every content of the index and
whatever neighbours the graph finds. The candidates are filtered and scored over the
database; too few of them are asked for again, and in the end the rows are scanned. An
index without any item is the exception: the search gives up before it scans. -/

namespace MemoryEngine
open Time KeyedTable Transaction Ranking Search

section lists
variable {α β : Type}

/-- Between a sublist and its list there is one of every length between theirs. -/
theorem sublist_between {l₁ l₂ : List α} (inside : l₁.Sublist l₂) : ∀ k, l₁.length ≤ k → k ≤ l₂.length →
    ∃ l : List α, l₁.Sublist l ∧ l.Sublist l₂ ∧ l.length = k := by
  induction inside with
  | slnil =>
    intro k _ short
    exact ⟨[],.slnil,.slnil,by simpa [eq_comm] using short⟩
  | @cons l₁ l₂ a inside ih =>
    intro k long short
    by_cases whole : k = (a :: l₂).length
    · exact ⟨a :: l₂,inside.cons a,List.Sublist.refl _,whole.symm⟩
    · simp only [List.length_cons] at short whole
      obtain ⟨l,above,below,length⟩ := ih k long (by omega)
      exact ⟨l,above,below.cons a,length⟩
  | @cons_cons l₁ l₂ a inside ih =>
    intro k long short
    simp only [List.length_cons] at long short
    obtain ⟨l,above,below,length⟩ := ih (k - 1) (by omega) (by omega)
    refine ⟨a :: l,above.cons_cons a,below.cons_cons a,?_⟩
    simp only [List.length_cons,length]
    omega

/-- A list that repeats an item has a sublist of every length from two on that does. -/
theorem repeating_sublist {l : List α} (repeats : ¬ l.Nodup) {k : Nat} (two : 2 ≤ k) (short : k ≤ l.length) :
    ∃ part : List α, part.Sublist l ∧ part.length = k ∧ ¬ part.Nodup := by
  rw [List.nodup_iff_sublist] at repeats
  push Not at repeats
  obtain ⟨a,twice⟩ := repeats
  obtain ⟨part,above,below,length⟩ := sublist_between twice k two short
  exact ⟨part,below,length,fun distinct => List.nodup_iff_sublist.mp distinct a above⟩

/-- The items behind a sublist of what a list is mapped to, one for each. -/
theorem sublist_behind {f : α → Option β} {l : List α} {part : List β} (inside : part.Sublist (l.filterMap f)) :
    ∃ l' : List α, l'.Sublist l ∧ l'.filterMap f = part ∧ l'.length = part.length := by
  induction l generalizing part with
  | nil =>
    cases List.sublist_nil.mp inside
    exact ⟨[],.slnil,rfl,rfl⟩
  | cons a rest ih =>
    cases made : f a with
    | none =>
      rw [List.filterMap_cons_none made] at inside
      obtain ⟨l',below,same,length⟩ := ih inside
      exact ⟨l',below.cons a,same,length⟩
    | some b =>
      rw [List.filterMap_cons_some made] at inside
      cases inside with
      | cons _ inside =>
        obtain ⟨l',below,same,length⟩ := ih inside
        exact ⟨l',below.cons a,same,length⟩
      | cons_cons _ inside =>
        obtain ⟨l',below,same,length⟩ := ih inside
        exact ⟨a :: l',below.cons_cons a,by rw [List.filterMap_cons_some made,same],by simp [length]⟩

end lists

/-- What the graph finds for a vector, a search width and a number of neighbours: numbers of
    items, each once, and no more of them than were asked for. -/
structure Nearest (n_items : Nat) where
  find : Embedding → Nat → Nat → List Nat
  nodup : ∀ embedding ef k, (find embedding ef k).Nodup
  valid : ∀ embedding ef k, ∀ i ∈ find embedding ef k, i < n_items
  bounded : ∀ embedding ef k, (find embedding ef k).length ≤ k

/-- A graph that finds some items wherever they are not too many. -/
def Nearest.only {n_items : Nat} (found : List Nat) (distinct : found.Nodup) (inside : ∀ i ∈ found, i < n_items) : Nearest n_items where
  find := fun _ _ k => if found.length ≤ k then found else []
  nodup := fun _ _ k => by
    split
    · exact distinct
    · exact List.nodup_nil
  valid := fun _ _ k i listed => by
    split at listed
    · exact inside i listed
    · cases listed
  bounded := fun _ _ k => by
    split
    · assumption
    · exact Nat.zero_le k

namespace HnswInner
variable {hnsw : Hnsw}

/-- The fact of a slot that is not out of use. -/
def visible (inner : HnswInner hnsw) (index : Nat) : Option FactId :=
  if index ∈ inner.tombstones then none else inner.index_to_fact[index]?

/-- The facts of the neighbours, in their order. -/
def candidates (inner : HnswInner hnsw) (neighbors : List Nat) : List FactId := neighbors.filterMap inner.visible

/-- The index as a search uses it. -/
def strategy (inner : HnswInner hnsw) (nearest : Nearest inner.index_to_fact.length) : HnswStrategy :=
  ⟨inner.index_to_fact.length,fun embedding ef k => inner.candidates (nearest.find embedding ef k)⟩

/-- The facts that a search can come upon, once for each of their slots. -/
def liveFacts (inner : HnswInner hnsw) : List FactId := inner.candidates (List.range inner.index_to_fact.length)

variable {inner : HnswInner hnsw}

theorem visible_eq_some {index : Nat} {id : FactId} :
    inner.visible index = some id ↔ inner.index_to_fact[index]? = some id ∧ index ∉ inner.tombstones := by
  unfold visible
  by_cases buried : index ∈ inner.tombstones
  · simp [buried]
  · simp [buried]

/-- In an index that its operations have built a fact has one slot in use. -/
theorem Sound.liveFacts_nodup (sound : inner.Sound) : inner.liveFacts.Nodup := by
  refine List.Nodup.filterMap (fun i j id first second => ?_) List.nodup_range
  have used := (sound.slots.current id i).mpr (visible_eq_some.mp first)
  have used' := (sound.slots.current id j).mpr (visible_eq_some.mp second)
  rw [used] at used'
  exact Option.some.inj used'

/-- The candidates are some of the facts of the live slots. -/
theorem candidates_subperm {neighbors : List Nat} (distinct : neighbors.Nodup) (inside : ∀ i ∈ neighbors, i < inner.index_to_fact.length) :
    (inner.candidates neighbors).Subperm inner.liveFacts := by
  have some_of : neighbors.Subperm (List.range inner.index_to_fact.length) :=
    List.subperm_of_subset distinct fun i listed => List.mem_range.mpr (inside i listed)
  obtain ⟨l,same,below⟩ := some_of
  exact ⟨inner.candidates l,same.filterMap _,below.filterMap _⟩

end HnswInner

namespace Search
section functional
variable {self : SqliteBackend} {libraries : SearchLibraries} {filter : FactFilter} {s t : Db} {embedding : Embedding}
  {r : List (FactId × F64)}

/-- A row with its exact score. -/
def scoredFact (cosine_similarity : Embedding → Embedding → F32) (embedding : Embedding) (f : Fact) : FactId × F64 :=
  (f.id,(cosine_similarity embedding f.embedding).toF64)

/-- What a candidate contributes. -/
def hit (cosine_similarity : Embedding → Embedding → F32) (embedding : Embedding) (filter : FactFilter) (t : Tables) (id : FactId) :
    Option (FactId × F64) :=
  (t.facts.rows.find? fun f => f.id == id && filter.admits f).map (scoredFact cosine_similarity embedding)

/-- The rows that the filter admits. -/
def admittedRows (filter : FactFilter) (t : Tables) : List Fact := t.facts.rows.filter filter.admits

/-- The candidate is the fact of an admitted row. -/
def isAdmitted (filter : FactFilter) (t : Tables) (id : FactId) : Bool := t.facts.rows.any fun f => f.id == id && filter.admits f

theorem isAdmitted_iff {t : Tables} {id : FactId} : isAdmitted filter t id = true ↔ t.Admitted filter id := by
  simp [isAdmitted,Tables.Admitted]

theorem hit_eq_some {t : Tables} {id : FactId} {entry : FactId × F64} (found : hit libraries.cosine_similarity embedding filter t id = some entry) :
    ∃ f ∈ admittedRows filter t, f.id = id ∧ entry = scoredFact libraries.cosine_similarity embedding f := by
  obtain ⟨f,first,rfl⟩ := Option.map_eq_some_iff.mp found
  have taken := List.find?_some first
  simp only [Bool.and_eq_true,beq_iff_eq] at taken
  exact ⟨f,List.mem_filter.mpr ⟨List.mem_of_find?_eq_some first,taken.2⟩,taken.1,rfl⟩

/-- The hits of some candidates are the admitted ones among them. -/
theorem map_fst_hits (t : Tables) (candidates : List FactId) :
    (candidates.filterMap (hit libraries.cosine_similarity embedding filter t)).map Prod.fst = candidates.filter (isAdmitted filter t) := by
  induction candidates with
  | nil => rfl
  | cons id rest ih =>
    cases found : hit libraries.cosine_similarity embedding filter t id with
    | none =>
      have out : isAdmitted filter t id = false := by
        have absent := Option.map_eq_none_iff.mp found
        simpa [isAdmitted] using absent
      rw [List.filterMap_cons_none found,List.filter_cons_of_neg (by simp [out]),ih]
    | some entry =>
      obtain ⟨f,listed,same,rfl⟩ := hit_eq_some found
      obtain ⟨member,passes⟩ := List.mem_filter.mp listed
      have admitted : isAdmitted filter t id = true := isAdmitted_iff.mpr ⟨f,member,same,passes⟩
      rw [List.filterMap_cons_some found,List.filter_cons_of_pos admitted,List.map_cons,ih,scoredFact,same]

theorem score_row_eq_ok (f : Fact) (entry : FactId × F64) : score_row self libraries embedding f = .ok entry ↔
    f.embedding.length = self.embed_dim ∧ entry = scoredFact libraries.cosine_similarity embedding f := by
  unfold score_row deserialize_embedding
  by_cases sized : f.embedding.length = self.embed_dim
  · simp [sized,scoredFact,bind,Except.bind,pure,Except.pure,eq_comm]
  · simp [sized,bind,Except.bind]

theorem score_rows_ok {rows : List Fact} : rows.mapM (score_row self libraries embedding) = .ok r ↔
    (∀ f ∈ rows, f.embedding.length = self.embed_dim) ∧ r = rows.map (scoredFact libraries.cosine_similarity embedding) :=
  mapM_ok_iff score_row_eq_ok

variable (libraries embedding) in
theorem score_rows {rows : List Fact} (sized : ∀ f ∈ rows, f.embedding.length = self.embed_dim) :
    rows.mapM (score_row self libraries embedding) = .ok (rows.map (scoredFact libraries.cosine_similarity embedding)) :=
  score_rows_ok.mpr ⟨sized,rfl⟩

/-- The hits of the candidates, whose vectors have to have the width of the backend. -/
theorem commits_score_candidates {candidates : List FactId} : Commits (score_candidates self libraries embedding filter candidates) s r t ↔
    t = s ∧ (∀ f ∈ admittedRows filter s.toTables, f.id ∈ candidates → f.embedding.length = self.embed_dim) ∧
      r = candidates.filterMap (hit libraries.cosine_similarity embedding filter s.toTables) := by
  have looked : ∀ id ∈ candidates, ((s.facts.rows.filter fun f => candidates.contains f.id && filter.admits f).map
      (scoredFact libraries.cosine_similarity embedding)).find? (fun entry => entry.1 == id) =
        hit libraries.cosine_similarity embedding filter s.toTables id := by
    intro id listed
    rw [List.find?_map,List.find?_filter,hit]
    congr 2
    funext f
    by_cases same : f.id = id
    · subst same
      simp [scoredFact,listed]
    · simp [scoredFact,same]
  have rows : (∀ f ∈ s.facts.rows.filter fun f => candidates.contains f.id && filter.admits f, f.embedding.length = self.embed_dim) ↔
      ∀ f ∈ admittedRows filter s.toTables, f.id ∈ candidates → f.embedding.length = self.embed_dim := by
    simp only [admittedRows,List.mem_filter,Bool.and_eq_true,List.contains_iff_mem]
    exact ⟨fun all f listed among => all f ⟨listed.1,among,listed.2⟩,fun all f listed => all f ⟨listed.1,listed.2.2⟩ listed.2.1⟩
  constructor
  · intro committed
    obtain ⟨surviving,_,selected,scoring⟩ := commits_bind.mp committed
    obtain ⟨rfl,rfl⟩ := commits_query.mp selected
    obtain ⟨scored,_,converted,last⟩ := commits_bind.mp scoring
    obtain ⟨converted,rfl⟩ := commits_lift.mp converted
    obtain ⟨sized,rfl⟩ := score_rows_ok.mp converted
    obtain ⟨rfl,rfl⟩ := commits_pure.mp last
    exact ⟨rfl,rows.mp sized,List.filterMap_congr looked⟩
  · rintro ⟨rfl,sized,rfl⟩
    have converted := score_rows libraries embedding (rows.mpr sized)
    refine commits_bind.mpr ⟨_,_,commits_query.mpr ⟨rfl,rfl⟩,commits_bind.mpr ⟨_,_,commits_lift.mpr ⟨converted,rfl⟩,?_⟩⟩
    exact commits_pure.mpr ⟨(List.filterMap_congr looked).symm,rfl⟩

/-- The scan of the admitted rows. -/
theorem commits_vector_search_filtered {limit : Nat} (query_sized : embedding.length = self.embed_dim) :
    Commits (vector_search_filtered self libraries embedding limit filter) s r t ↔
      t = s ∧ (∀ f ∈ admittedRows filter s.toTables, f.embedding.length = self.embed_dim) ∧ r = (by_score libraries (libraries.scores.order
        (((libraries.rows.order s.facts.rows).filter filter.admits).map (scoredFact libraries.cosine_similarity embedding)))).take limit := by
  have rows : (∀ f ∈ (libraries.rows.order s.facts.rows).filter filter.admits, f.embedding.length = self.embed_dim) ↔
      ∀ f ∈ admittedRows filter s.toTables, f.embedding.length = self.embed_dim := by
    simp only [admittedRows,List.mem_filter,(libraries.rows.perm _).mem_iff]
  unfold vector_search_filtered
  rw [if_pos query_sized]
  constructor
  · intro committed
    obtain ⟨listed,_,selected,scoring⟩ := commits_bind.mp committed
    obtain ⟨rfl,rfl⟩ := commits_query.mp selected
    obtain ⟨scored,_,converted,last⟩ := commits_bind.mp scoring
    obtain ⟨converted,rfl⟩ := commits_lift.mp converted
    obtain ⟨sized,rfl⟩ := score_rows_ok.mp converted
    obtain ⟨rfl,rfl⟩ := commits_pure.mp last
    exact ⟨rfl,rows.mp sized,rfl⟩
  · rintro ⟨rfl,sized,rfl⟩
    have converted := score_rows libraries embedding (rows.mpr sized)
    refine commits_bind.mpr ⟨_,_,commits_query.mpr ⟨rfl,rfl⟩,commits_bind.mpr ⟨_,_,commits_lift.mpr ⟨converted,rfl⟩,?_⟩⟩
    exact commits_pure.mpr ⟨rfl,rfl⟩

/-- Where all admitted rows are of the width of the backend, the widening ends with the hits
    of enough neighbours or with none. -/
theorem widen_ends {hnsw : HnswStrategy} {limit : Nat} (sized : ∀ f ∈ admittedRows filter s.toTables, f.embedding.length = self.embed_dim)
    (attempts ef overfetch : Nat) : ∃ found, Commits (widen self libraries hnsw embedding limit filter attempts ef overfetch) s found s ∧
      ∀ results, found = some results → limit ≤ results.length ∧
        ∃ ef' k, results = (hnsw.nearest embedding ef' k).filterMap (hit libraries.cosine_similarity embedding filter s.toTables) := by
  induction attempts generalizing ef overfetch with
  | zero => exact ⟨none,commits_pure.mpr ⟨rfl,rfl⟩,fun results same => by cases same⟩
  | succ attempts ih =>
    let results := (hnsw.nearest embedding ef (min overfetch hnsw.n_items)).filterMap (hit libraries.cosine_similarity embedding filter s.toTables)
    have scored : Commits (score_candidates self libraries embedding filter (hnsw.nearest embedding ef (min overfetch hnsw.n_items))) s results s :=
      commits_score_candidates.mpr ⟨rfl,fun f listed _ => sized f listed,rfl⟩
    by_cases enough : limit ≤ results.length
    · refine ⟨some results,commits_bind.mpr ⟨results,s,scored,?_⟩,fun _ same => ?_⟩
      · rw [if_pos enough]
        exact commits_pure.mpr ⟨rfl,rfl⟩
      · cases same
        exact ⟨enough,ef,_,rfl⟩
    · obtain ⟨found,ended,holds⟩ := ih (min (ef * 2) USIZE_MAX) (min (overfetch * 2) USIZE_MAX)
      refine ⟨found,commits_bind.mpr ⟨results,s,scored,?_⟩,holds⟩
      rw [if_neg enough]
      exact ended

end functional
section finds
variable {self : SqliteBackend} {libraries : SearchLibraries} {filter : FactFilter} {s t : Db} {embedding : Embedding} {limit : Nat}
  {r : List (FactId × F64)}

/-- What a search ought to return: facts of admitted rows, each once and with its exact
    score, none scored below a later one, and as many as there are up to the limit. -/
structure Finds (cosine_similarity : Embedding → Embedding → F32) (embedding : Embedding) (filter : FactFilter) (limit : Nat) (t : Tables)
    (r : List (FactId × F64)) : Prop where
  distinct : (r.map Prod.fst).Nodup
  scored : ∀ entry ∈ r, ∃ f ∈ admittedRows filter t, entry = scoredFact cosine_similarity embedding f
  ordered : r.Pairwise fun a b => a.2.lt b.2 = false
  count : r.length = min limit (admittedRows filter t).length

/-- A comparison puts the admitted rows in order: no score is NaN, or none is below another. -/
def Comparable (cosine_similarity : Embedding → Embedding → F32) (embedding : Embedding) (filter : FactFilter) (t : Tables) : Prop :=
  (∀ f ∈ admittedRows filter t, (scoredFact cosine_similarity embedding f).2 ≠ .nan) ∨
    ∀ f ∈ admittedRows filter t, ∀ g ∈ admittedRows filter t,
      (scoredFact cosine_similarity embedding f).2.lt (scoredFact cosine_similarity embedding g).2 = false

theorem pairwise_short {α : Type} {rel : α → α → Prop} {l : List α} (short : l.length ≤ 1) : l.Pairwise rel := by
  cases l with
  | nil => exact List.Pairwise.nil
  | cons a rest =>
    have single : rest = [] := List.eq_nil_of_length_eq_zero (by simpa using short)
    rw [single]
    exact List.pairwise_singleton rel a

theorem by_score_perm (l : List (FactId × F64)) : (by_score libraries l).Perm l := sortBy_perm _ _ l

theorem ordered_by_score (comparable : Comparable libraries.cosine_similarity embedding filter t.toTables) {l : List (FactId × F64)}
    (scored : ∀ entry ∈ l, ∃ f ∈ admittedRows filter t.toTables, entry = scoredFact libraries.cosine_similarity embedding f) :
    (by_score libraries l).Pairwise fun a b => a.2.lt b.2 = false := by
  rcases comparable with numbers | level
  · have number : ∀ entry ∈ l, entry.2 ≠ .nan := by
      intro entry listed
      obtain ⟨f,admitted,rfl⟩ := scored entry listed
      exact numbers f admitted
    have tame : ¬ ∃ entry ∈ l, entry.2.rank = ⊥ := by
      rintro ⟨entry,listed,bottom⟩
      exact number entry listed (F64.rank_eq_bot.mp bottom)
    have sorted : (by_score libraries l).Pairwise fun a b => b.2.rank ≤ a.2.rank := by
      unfold by_score sortBy
      rw [if_neg tame]
      exact descending_sorted _ l
    refine sorted.imp_of_mem fun {a b} listed _ below => ?_
    have first : a.2 ≠ .nan := number a (mem_by_score.mp listed)
    rw [Bool.eq_false_iff,ne_eq,F64.lt_iff_rank first]
    exact not_lt.mpr below
  · refine List.pairwise_of_forall_mem_list fun a listed b listed' => ?_
    obtain ⟨f,admitted,rfl⟩ := scored a (mem_by_score.mp listed)
    obtain ⟨g,admitted',rfl⟩ := scored b (mem_by_score.mp listed')
    exact level f admitted g admitted'

/-- Entries of admitted rows for facts of their own are no more than the rows. -/
theorem length_le_admitted {l : List (FactId × F64)} (distinct : (l.map Prod.fst).Nodup)
    (scored : ∀ entry ∈ l, ∃ f ∈ admittedRows filter t.toTables, entry = scoredFact libraries.cosine_similarity embedding f) :
    l.length ≤ (admittedRows filter t.toTables).length := by
  have inside : l.map Prod.fst ⊆ (admittedRows filter t.toTables).map Fact.id := by
    intro id listed
    obtain ⟨entry,member,rfl⟩ := List.mem_map.mp listed
    obtain ⟨f,admitted,rfl⟩ := scored entry member
    exact List.mem_map_of_mem admitted
  simpa using (List.subperm_of_subset distinct inside).length_le

/-- The first of some scored entries in their order. -/
theorem finds_take {l : List (FactId × F64)} (distinct : limit ≤ 1 ∨ (l.map Prod.fst).Nodup)
    (comparable : limit ≤ 1 ∨ Comparable libraries.cosine_similarity embedding filter t.toTables)
    (scored : ∀ entry ∈ l, ∃ f ∈ admittedRows filter t.toTables, entry = scoredFact libraries.cosine_similarity embedding f)
    (enough : min limit l.length = min limit (admittedRows filter t.toTables).length) :
    Finds libraries.cosine_similarity embedding filter limit t.toTables ((by_score libraries l).take limit) where
  distinct := by
    rcases distinct with single | distinct
    · refine pairwise_short ?_
      rw [List.length_map]
      exact (List.length_take_le _ _).trans single
    · refine List.Nodup.sublist ((List.take_sublist _ _).map _) ?_
      exact ((by_score_perm l).map Prod.fst).nodup_iff.mpr distinct
  scored := fun entry listed => scored entry (mem_by_score.mp (List.mem_of_mem_take listed))
  ordered := by
    rcases comparable with single | comparable
    · exact pairwise_short ((List.length_take_le _ _).trans single)
    · exact (ordered_by_score comparable scored).sublist (List.take_sublist _ _)
  count := by rw [List.length_take,(by_score_perm l).length_eq,enough]

/-- What the scan returns. -/
theorem finds_scan (comparable : limit ≤ 1 ∨ Comparable libraries.cosine_similarity embedding filter t.toTables) :
    Finds libraries.cosine_similarity embedding filter limit t.toTables ((by_score libraries (libraries.scores.order
      (((libraries.rows.order t.facts.rows).filter filter.admits).map (scoredFact libraries.cosine_similarity embedding)))).take limit) := by
  have whole : (libraries.scores.order
      (((libraries.rows.order t.facts.rows).filter filter.admits).map (scoredFact libraries.cosine_similarity embedding))).Perm
        ((admittedRows filter t.toTables).map (scoredFact libraries.cosine_similarity embedding)) :=
    (libraries.scores.perm _).trans (((libraries.rows.perm _).filter _).map _)
  refine finds_take (.inr ?_) comparable (fun entry listed => ?_) ?_
  · rw [(whole.map Prod.fst).nodup_iff,List.map_map]
    exact List.Nodup.sublist (List.filter_sublist.map _) t.facts.keys_nodup
  · obtain ⟨f,admitted,rfl⟩ := List.mem_map.mp (whole.mem_iff.mp listed)
    exact ⟨f,admitted,rfl⟩
  · rw [whole.length_eq,List.length_map]

/-- What the hits of enough candidates give. -/
theorem finds_hits {candidates live : List FactId} (some_of : candidates.Subperm live)
    (enough : limit ≤ (candidates.filterMap (hit libraries.cosine_similarity embedding filter t.toTables)).length)
    (tame : limit ≤ 1 ∨ Comparable libraries.cosine_similarity embedding filter t.toTables ∧
      ((live.filter (isAdmitted filter t.toTables)).Nodup ∨ (live.filter (isAdmitted filter t.toTables)).length < limit)) :
    Finds libraries.cosine_similarity embedding filter limit t.toTables
      ((by_score libraries (candidates.filterMap (hit libraries.cosine_similarity embedding filter t.toTables))).take limit) := by
  have scored : ∀ entry ∈ candidates.filterMap (hit libraries.cosine_similarity embedding filter t.toTables),
      ∃ f ∈ admittedRows filter t.toTables, entry = scoredFact libraries.cosine_similarity embedding f := by
    intro entry listed
    obtain ⟨id,_,found⟩ := List.mem_filterMap.mp listed
    obtain ⟨f,admitted,_,same⟩ := hit_eq_some found
    exact ⟨f,admitted,same⟩
  have ids : (candidates.filterMap (hit libraries.cosine_similarity embedding filter t.toTables)).map Prod.fst =
      candidates.filter (isAdmitted filter t.toTables) :=
    map_fst_hits t.toTables candidates
  have length : (candidates.filterMap (hit libraries.cosine_similarity embedding filter t.toTables)).length =
      (candidates.filter (isAdmitted filter t.toTables)).length := by
    rw [← ids,List.length_map]
  obtain ⟨part,same,below⟩ := some_of
  have kept : (part.filter (isAdmitted filter t.toTables)).Perm (candidates.filter (isAdmitted filter t.toTables)) := same.filter _
  have distinct : limit ≤ 1 ∨ ((candidates.filterMap (hit libraries.cosine_similarity embedding filter t.toTables)).map Prod.fst).Nodup := by
    refine tame.imp_right fun ⟨_,either⟩ => ?_
    rw [ids,← kept.nodup_iff]
    rcases either with once | few
    · exact once.sublist (below.filter _)
    · have more := (below.filter (isAdmitted filter t.toTables)).length_le
      have equal := kept.length_eq
      omega
  refine finds_take distinct (tame.imp_right And.left) scored ?_
  rcases distinct with single | distinct
  · by_cases none_asked : limit = 0
    · simp [none_asked]
    · -- one candidate is admitted, so one row is
      have some_hit : 0 < (candidates.filterMap (hit libraries.cosine_similarity embedding filter t.toTables)).length := by omega
      obtain ⟨entry,listed⟩ := List.exists_mem_of_length_pos some_hit
      obtain ⟨f,admitted,_⟩ := scored entry listed
      have some_row := List.length_pos_of_mem admitted
      omega
  · have bounded := length_le_admitted distinct scored
    omega

end finds

section exact_
variable {hnsw : Hnsw} {self : SqliteBackend} {libraries : SearchLibraries} {filter : FactFilter} {s t : Db} {embedding : Embedding}
  {limit : Nat} {r : List (FactId × F64)}

/-- Nothing is asked for or nothing is there to be found; or the index has an item, the rows
    are of the width of the backend, and, unless one result is asked for, the rows compare and
    no admitted fact has two live slots among enough of them. -/
def Searchable (self : SqliteBackend) (cosine_similarity : Embedding → Embedding → F32) (inner : HnswInner hnsw) (embedding : Embedding)
    (limit : Nat) (filter : FactFilter) (t : Tables) : Prop :=
  limit = 0 ∨ admittedRows filter t = [] ∨
    inner.index_to_fact ≠ [] ∧ (∀ f ∈ admittedRows filter t, f.embedding.length = self.embed_dim) ∧
      (limit = 1 ∨ Comparable cosine_similarity embedding filter t ∧
        ((inner.liveFacts.filter (isAdmitted filter t)).Nodup ∨ (inner.liveFacts.filter (isAdmitted filter t)).length < limit))

/-- In an index that its operations have built no fact has two live slots. -/
theorem searchable_of_sound {cosine_similarity : Embedding → Embedding → F32} {inner : HnswInner hnsw} (sound : inner.Sound) {t : Tables} :
    Searchable self cosine_similarity inner embedding limit filter t ↔ limit = 0 ∨ admittedRows filter t = [] ∨
      inner.index_to_fact ≠ [] ∧ (∀ f ∈ admittedRows filter t, f.embedding.length = self.embed_dim) ∧
        (limit = 1 ∨ Comparable cosine_similarity embedding filter t) := by
  have once : (inner.liveFacts.filter (isAdmitted filter t)).Nodup ∨ (inner.liveFacts.filter (isAdmitted filter t)).length < limit :=
    .inl (sound.liveFacts_nodup.filter _)
  unfold Searchable
  rw [and_iff_left once]

/-- A search in an index without items ends before it reads. -/
theorem commits_hnsw_search_empty {strategy : HnswStrategy} (query_sized : embedding.length = self.embed_dim) (empty : strategy.n_items = 0) :
    Commits (hnsw_search self libraries strategy embedding limit filter) s r t ↔ r = [] ∧ t = s := by
  unfold hnsw_search
  rw [if_pos query_sized,if_pos empty]
  exact commits_pure

theorem commits_hnsw_search {strategy : HnswStrategy} (query_sized : embedding.length = self.embed_dim) (filled : strategy.n_items ≠ 0) :
    Commits (hnsw_search self libraries strategy embedding limit filter) s r t ↔
      ∃ found m, Commits (widen self libraries strategy embedding limit filter MAX_WIDEN_ATTEMPTS DEFAULT_EF_SEARCH
        (min (limit * OVERFETCH_FACTOR) USIZE_MAX)) s found m ∧
        ((∃ results, found = some results ∧ r = (by_score libraries results).take limit ∧ t = m) ∨
          found = none ∧ Commits (vector_search_filtered self libraries embedding limit filter) m r t) := by
  unfold hnsw_search
  rw [if_pos query_sized,if_neg filled,commits_bind]
  refine exists_congr fun found => exists_congr fun m => and_congr_right fun _ => ?_
  cases found with
  | none => simp
  | some results =>
    rw [commits_pure]
    simp

/-- Without any neighbour every attempt comes to nothing. -/
theorem widen_idle {strategy : HnswStrategy} (idle : ∀ ef k, strategy.nearest embedding ef k = []) (asked : limit ≠ 0) (attempts ef overfetch : Nat) :
    Commits (widen self libraries strategy embedding limit filter attempts ef overfetch) s none s := by
  induction attempts generalizing ef overfetch with
  | zero => exact commits_pure.mpr ⟨rfl,rfl⟩
  | succ attempts ih =>
    have scored : Commits (score_candidates self libraries embedding filter (strategy.nearest embedding ef (min overfetch strategy.n_items))) s [] s := by
      rw [idle]
      exact commits_score_candidates.mpr ⟨rfl,fun _ _ listed => (by cases listed),rfl⟩
    refine commits_bind.mpr ⟨[],s,scored,?_⟩
    rw [if_neg (by simpa using asked)]
    exact ih _ _

/-- A first attempt that finds enough is the only one. -/
theorem widen_first {strategy : HnswStrategy} {attempts ef overfetch : Nat} {results : List (FactId × F64)}
    (scored : Commits (score_candidates self libraries embedding filter (strategy.nearest embedding ef (min overfetch strategy.n_items))) s results s)
    (enough : limit ≤ results.length) :
    Commits (widen self libraries strategy embedding limit filter (attempts + 1) ef overfetch) s (some results) s := by
  refine commits_bind.mpr ⟨results,s,scored,?_⟩
  rw [if_pos enough]
  exact commits_pure.mpr ⟨rfl,rfl⟩

variable {inner : HnswInner hnsw}

variable (libraries) in
/-- Under the condition the search finds what it ought to. -/
theorem hnsw_search_finds (query_sized : embedding.length = self.embed_dim)
    (searchable : Searchable self libraries.cosine_similarity inner embedding limit filter s.toTables) (nearest : Nearest inner.index_to_fact.length) :
    ∃ r, Commits (hnsw_search self libraries (inner.strategy nearest) embedding limit filter) s r s ∧
      Finds libraries.cosine_similarity embedding filter limit s.toTables r := by
  by_cases empty : inner.index_to_fact = []
  · -- nothing is to be returned
    have none_due : min limit (admittedRows filter s.toTables).length = 0 := by
      rcases searchable with none_asked | nowhere | ⟨filled,_⟩
      · simp [none_asked]
      · simp [nowhere]
      · exact absurd empty filled
    refine ⟨[],(commits_hnsw_search_empty query_sized (List.length_eq_zero_iff.mpr empty)).mpr ⟨rfl,rfl⟩,?_⟩
    exact ⟨List.nodup_nil,fun _ listed => (by cases listed),List.Pairwise.nil,none_due.symm⟩
  have filled : (inner.strategy nearest).n_items ≠ 0 := mt List.length_eq_zero_iff.mp empty
  by_cases none_asked : limit = 0
  · subst none_asked
    have nothing : (inner.strategy nearest).nearest embedding DEFAULT_EF_SEARCH
        (min (min (0 * OVERFETCH_FACTOR) USIZE_MAX) (inner.strategy nearest).n_items) = [] := by
      have short := nearest.bounded embedding DEFAULT_EF_SEARCH (min (min (0 * OVERFETCH_FACTOR) USIZE_MAX) inner.index_to_fact.length)
      have found : nearest.find embedding DEFAULT_EF_SEARCH (min (min (0 * OVERFETCH_FACTOR) USIZE_MAX) inner.index_to_fact.length) = [] :=
        List.eq_nil_of_length_eq_zero (by omega)
      change inner.candidates (nearest.find _ _ _) = []
      rw [HnswInner.strategy,found]
      rfl
    have scored : Commits (score_candidates self libraries embedding filter ((inner.strategy nearest).nearest embedding DEFAULT_EF_SEARCH
        (min (min (0 * OVERFETCH_FACTOR) USIZE_MAX) (inner.strategy nearest).n_items))) s [] s := by
      rw [nothing]
      exact commits_score_candidates.mpr ⟨rfl,fun _ _ listed => (by cases listed),rfl⟩
    refine ⟨[],(commits_hnsw_search query_sized filled).mpr ⟨some [],s,widen_first scored (Nat.zero_le _),.inl ⟨[],rfl,rfl,rfl⟩⟩,?_⟩
    exact ⟨List.nodup_nil,fun _ listed => (by cases listed),List.Pairwise.nil,by simp⟩
  have ready : (∀ f ∈ admittedRows filter s.toTables, f.embedding.length = self.embed_dim) ∧
      (limit ≤ 1 ∨ Comparable libraries.cosine_similarity embedding filter s.toTables ∧
        ((inner.liveFacts.filter (isAdmitted filter s.toTables)).Nodup ∨
          (inner.liveFacts.filter (isAdmitted filter s.toTables)).length < limit)) := by
    rcases searchable with zero | nowhere | ⟨_,sized,tame⟩
    · exact absurd zero none_asked
    · have nobody : ∀ id, isAdmitted filter s.toTables id = false := by
        intro id
        rw [Bool.eq_false_iff,ne_eq,isAdmitted_iff]
        rintro ⟨f,listed,_,passes⟩
        have member : f ∈ admittedRows filter s.toTables := List.mem_filter.mpr ⟨listed,passes⟩
        rw [nowhere] at member
        cases member
      rw [nowhere]
      refine ⟨fun _ listed => (by cases listed),.inr ⟨.inl ?_,.inl ?_⟩⟩
      · rw [nowhere]
        exact fun _ listed => (by cases listed)
      · have gone : inner.liveFacts.filter (isAdmitted filter s.toTables) = [] := List.filter_eq_nil_iff.mpr fun id _ => by simp [nobody id]
        rw [gone]
        exact List.nodup_nil
    · exact ⟨sized,tame.imp_left fun single => single.le⟩
  obtain ⟨sized,tame⟩ := ready
  obtain ⟨found,widened,hits⟩ : ∃ found, Commits (widen self libraries (inner.strategy nearest) embedding limit filter MAX_WIDEN_ATTEMPTS
      DEFAULT_EF_SEARCH (min (limit * OVERFETCH_FACTOR) USIZE_MAX)) s found s ∧ _ := widen_ends sized _ _ _
  cases found with
  | none =>
    refine ⟨_,(commits_hnsw_search query_sized filled).mpr ⟨none,s,widened,.inr ⟨rfl,?_⟩⟩,finds_scan (tame.imp_right And.left)⟩
    exact (commits_vector_search_filtered query_sized).mpr ⟨rfl,sized,rfl⟩
  | some results =>
    obtain ⟨enough,ef,k,rfl⟩ := hits results rfl
    refine ⟨_,(commits_hnsw_search query_sized filled).mpr ⟨_,s,widened,.inl ⟨_,rfl,rfl,rfl⟩⟩,finds_hits ?_ enough tame⟩
    exact HnswInner.candidates_subperm (nearest.nodup embedding ef k) (nearest.valid embedding ef k)

end exact_

section necessary
variable {hnsw : Hnsw} {self : SqliteBackend} {libraries : SearchLibraries} {filter : FactFilter} {s t : Db} {embedding : Embedding}
  {limit : Nat} {r : List (FactId × F64)} {inner : HnswInner hnsw}

/-- A graph that finds nothing leaves the search to the scan. -/
theorem scanned_without_neighbours (query_sized : embedding.length = self.embed_dim) (filled : inner.index_to_fact ≠ []) (asked : limit ≠ 0)
    (searched : Commits (hnsw_search self libraries (inner.strategy (.only [] List.nodup_nil (by simp))) embedding limit filter) s r t) :
    Commits (vector_search_filtered self libraries embedding limit filter) s r t := by
  have idle : ∀ ef k, (inner.strategy (.only [] List.nodup_nil (by simp))).nearest embedding ef k = [] := by
    intro ef k
    simp [HnswInner.strategy,Nearest.only,HnswInner.candidates]
  have filled' : (inner.strategy (.only [] List.nodup_nil (by simp))).n_items ≠ 0 := mt List.length_eq_zero_iff.mp filled
  obtain ⟨found,m,widened,ending⟩ := (commits_hnsw_search query_sized filled').mp searched
  obtain ⟨rfl,rfl⟩ := Commits.functional (widen_idle idle asked _ _ _) widened
  rcases ending with ⟨results,same,_⟩ | ⟨_,scanned⟩
  · cases same
  · exact scanned

open Classical in
/-- An order that puts two entries first. -/
noncomputable def foremost (first second : FactId × F64) : Shuffle (FactId × F64) where
  order := fun l => if first ∈ l ∧ second ∈ l.erase first then first :: second :: (l.erase first).erase second else l
  perm := fun l => by
    by_cases both : first ∈ l ∧ second ∈ l.erase first
    · rw [if_pos both]
      exact ((List.perm_cons_erase both.2).symm.cons first).trans (List.perm_cons_erase both.1).symm
    · rw [if_neg both]

theorem foremost_of_mem {l : List (FactId × F64)} {first second : FactId × F64} (apart : second ≠ first) (listed : first ∈ l)
    (listed' : second ∈ l) : ∃ rest, (foremost first second).order l = first :: second :: rest := by
  classical
  exact ⟨_,if_pos ⟨listed,(List.mem_erase_of_ne apart).mpr listed'⟩⟩

/-- Two rows in order beside one that does not compare can come the other way round. -/
theorem comparable_of_scans (two : 2 ≤ limit)
    (always : ∀ scores, Finds libraries.cosine_similarity embedding filter limit s.toTables ((by_score { libraries with scores := scores } (scores.order
      (((libraries.rows.order s.facts.rows).filter filter.admits).map (scoredFact libraries.cosine_similarity embedding)))).take limit)) :
    Comparable libraries.cosine_similarity embedding filter s.toTables := by
  by_contra wild
  obtain ⟨some_nan,some_below⟩ := not_or.mp wild
  push Not at some_nan some_below
  obtain ⟨h,unordered,not_number⟩ := some_nan
  obtain ⟨f,low,g,high,below⟩ := some_below
  have below : (scoredFact libraries.cosine_similarity embedding f).2.lt (scoredFact libraries.cosine_similarity embedding g).2 = true := by
    simpa using below
  have apart : scoredFact libraries.cosine_similarity embedding g ≠ scoredFact libraries.cosine_similarity embedding f := by
    intro same
    rw [same] at below
    have lower := (F64.lt_iff_rank (F64.lt_number below)).mp below
    exact absurd lower (lt_irrefl _)
  let scores := foremost (scoredFact libraries.cosine_similarity embedding f) (scoredFact libraries.cosine_similarity embedding g)
  let rows := ((libraries.rows.order s.facts.rows).filter filter.admits).map (scoredFact libraries.cosine_similarity embedding)
  have listed : ∀ k ∈ admittedRows filter s.toTables, scoredFact libraries.cosine_similarity embedding k ∈ scores.order rows := by
    intro k admitted
    refine (scores.perm rows).mem_iff.mpr (List.mem_map_of_mem ?_)
    exact (((libraries.rows.perm s.facts.rows).filter _).mem_iff).mpr admitted
  obtain ⟨rest,front⟩ := foremost_of_mem apart (listed f low) (listed g high)
  have sorted : by_score { libraries with scores := scores } (scores.order rows) =
      scoredFact libraries.cosine_similarity embedding f :: scoredFact libraries.cosine_similarity embedding g :: rest := by
    unfold by_score sortBy
    rw [if_pos ⟨_,listed h unordered,F64.rank_eq_bot.mpr not_number⟩]
    exact front
  have ordered := (always scores).ordered
  change (List.take limit (by_score { libraries with scores := scores } (scores.order rows))).Pairwise _ at ordered
  obtain ⟨k,rfl⟩ := Nat.exists_eq_add_of_le' two
  rw [sorted,List.take_succ_cons,List.take_succ_cons] at ordered
  have first := (List.pairwise_cons.mp ordered).1 _ List.mem_cons_self
  rw [below] at first
  cases first

/-- A graph that finds as many admitted facts as are asked for, one of them twice. -/
theorem once_of_attempts (query_sized : embedding.length = self.embed_dim) (filled : inner.index_to_fact ≠ []) (fits : limit ≤ USIZE_MAX)
    (two : 2 ≤ limit) (sized : ∀ f ∈ admittedRows filter s.toTables, f.embedding.length = self.embed_dim)
    (always : ∀ nearest, ∃ r, Commits (hnsw_search self libraries (inner.strategy nearest) embedding limit filter) s r s ∧
      Finds libraries.cosine_similarity embedding filter limit s.toTables r) :
    (inner.liveFacts.filter (isAdmitted filter s.toTables)).Nodup ∨ (inner.liveFacts.filter (isAdmitted filter s.toTables)).length < limit := by
  by_contra neither
  obtain ⟨repeats,many⟩ := not_or.mp neither
  obtain ⟨part,below,length,twice⟩ := repeating_sublist repeats two (not_lt.mp many)
  rw [HnswInner.liveFacts,HnswInner.candidates,List.filter_filterMap] at below
  obtain ⟨found,inside,same,long⟩ := sublist_behind below
  have distinct : found.Nodup := List.nodup_range.sublist inside
  have valid : ∀ i ∈ found, i < inner.index_to_fact.length := fun i listed => List.mem_range.mp (inside.subset listed)
  let nearest : Nearest inner.index_to_fact.length := .only found distinct valid
  -- the first attempt asks for more than these
  have asked : found.length ≤ min (min (limit * OVERFETCH_FACTOR) USIZE_MAX) inner.index_to_fact.length := by
    have few := inside.length_le
    rw [List.length_range] at few
    unfold OVERFETCH_FACTOR
    omega
  have neighbours : (inner.strategy nearest).nearest embedding DEFAULT_EF_SEARCH (min (min (limit * OVERFETCH_FACTOR) USIZE_MAX)
      (inner.strategy nearest).n_items) = inner.candidates found := congrArg inner.candidates (if_pos asked)
  have ids : ((inner.candidates found).filterMap (hit libraries.cosine_similarity embedding filter s.toTables)).map Prod.fst = part := by
    rw [map_fst_hits,HnswInner.candidates,List.filter_filterMap,same]
  have enough : ((inner.candidates found).filterMap (hit libraries.cosine_similarity embedding filter s.toTables)).length = limit := by
    rw [← length,← ids,List.length_map]
  have scored : Commits (score_candidates self libraries embedding filter ((inner.strategy nearest).nearest embedding DEFAULT_EF_SEARCH
      (min (min (limit * OVERFETCH_FACTOR) USIZE_MAX) (inner.strategy nearest).n_items))) s
        ((inner.candidates found).filterMap (hit libraries.cosine_similarity embedding filter s.toTables)) s := by
    rw [neighbours]
    exact commits_score_candidates.mpr ⟨rfl,fun f listed _ => sized f listed,rfl⟩
  obtain ⟨r,searched,finds⟩ := always nearest
  have filled' : (inner.strategy nearest).n_items ≠ 0 := mt List.length_eq_zero_iff.mp filled
  obtain ⟨ended,m,widened,ending⟩ := (commits_hnsw_search query_sized filled').mp searched
  obtain ⟨rfl,rfl⟩ := Commits.functional (widen_first scored enough.ge) widened
  rcases ending with ⟨results,given,rfl,_⟩ | ⟨none,_⟩
  · cases given
    have whole := finds.distinct
    rw [List.take_of_length_le (by rw [(by_score_perm _).length_eq,enough]),((by_score_perm _).map Prod.fst).nodup_iff,ids] at whole
    exact twice whole
  · cases none

end necessary

variable {hnsw : Hnsw} {self : SqliteBackend} {s : Db} {embedding : Embedding} {limit : Nat}

/-- For every content of the index the search finds what it ought to, whatever the graph finds
    and in whatever order scores come that do not compare, exactly under the condition. -/
theorem hnsw_search_finds_iff (libraries : SearchLibraries) (inner : HnswInner hnsw) (filter : FactFilter)
    (query_sized : embedding.length = self.embed_dim) (fits : limit ≤ USIZE_MAX) :
    (∀ (nearest : Nearest inner.index_to_fact.length) (scores : Shuffle (FactId × F64)), ∃ r,
        Commits (hnsw_search self { libraries with scores := scores } (inner.strategy nearest) embedding limit filter) s r s ∧
          Finds libraries.cosine_similarity embedding filter limit s.toTables r) ↔
      Searchable self libraries.cosine_similarity inner embedding limit filter s.toTables := by
  constructor
  · intro always
    by_cases none_asked : limit = 0
    · exact .inl none_asked
    by_cases nowhere : admittedRows filter s.toTables = []
    · exact .inr (.inl nowhere)
    have filled : inner.index_to_fact ≠ [] := by
      intro empty
      obtain ⟨r,searched,finds⟩ := always (.only [] List.nodup_nil (by simp)) libraries.scores
      obtain ⟨rfl,_⟩ := (commits_hnsw_search_empty query_sized (List.length_eq_zero_iff.mpr empty)).mp searched
      have due := finds.count
      have rows := List.length_pos_iff.mpr nowhere
      simp only [List.length_nil] at due
      omega
    -- what the scan returns, for every order of the scores
    have scans : ∀ scores : Shuffle (FactId × F64), (∀ f ∈ admittedRows filter s.toTables, f.embedding.length = self.embed_dim) ∧
        Finds libraries.cosine_similarity embedding filter limit s.toTables ((by_score { libraries with scores := scores } (scores.order
          (((libraries.rows.order s.facts.rows).filter filter.admits).map (scoredFact libraries.cosine_similarity embedding)))).take limit) := by
      intro scores
      obtain ⟨r,searched,finds⟩ := always (.only [] List.nodup_nil (by simp)) scores
      obtain ⟨_,sized,rfl⟩ := (commits_vector_search_filtered query_sized).mp (scanned_without_neighbours query_sized filled none_asked searched)
      exact ⟨sized,finds⟩
    have sized := (scans libraries.scores).1
    refine .inr (.inr ⟨filled,sized,?_⟩)
    by_cases single : limit = 1
    · exact .inl single
    have two : 2 ≤ limit := by omega
    refine .inr ⟨comparable_of_scans two fun scores => (scans scores).2,?_⟩
    exact once_of_attempts query_sized filled fits two sized fun nearest => always nearest libraries.scores
  · intro searchable nearest scores
    exact hnsw_search_finds { libraries with scores := scores } query_sized searchable nearest

end Search
namespace Sample

def everything : FactFilter := ⟨none,none⟩

/-- The import of one memory file. -/
def importedFile : PortWrite := .ingest_bootstrap_batch_atomic none none [newFact "a"] ⟨"m","p",1,none,"f32"⟩ 1

/-- The store after the import, beside an index that was built before it. -/
theorem run_of_import : ∃ db : Db, Indexed.Run Sample.hnsw backend (fun _ _ => True) ⟨db,HnswInner.new_hnsw_index Sample.hnsw⟩ ∧
    (admittedRows everything db.toTables).length = 1 ∧ ∀ f ∈ db.activeFacts, f.embedding.length = backend.embed_dim := by
  have ran : Ends (importedFile.notices backend) Db.fresh (fun notices t => notices.isEmpty && decide ((admittedRows everything t.toTables).length = 1 ∧
      ∀ f ∈ t.activeFacts, f.embedding.length = backend.embed_dim)) = true := by decide +kernel
  obtain ⟨notices,db,committed,test⟩ := commits_of_ends ran
  obtain ⟨quiet,holds⟩ := Bool.and_eq_true_iff.mp test
  have silent : notices = [] := List.isEmpty_iff.mp quiet
  subst silent
  have start_ : Indexed.Run Sample.hnsw backend (fun _ _ => True) ⟨Db.fresh,HnswInner.new_hnsw_index Sample.hnsw⟩ := .start rfl
  have member : Indexed.InSequence importedFile := trivial
  have step : Indexed.Step backend ⟨Db.fresh,HnswInner.new_hnsw_index Sample.hnsw⟩ (.call importedFile)
      ⟨db,([] : List Notice).foldl HnswInner.told (HnswInner.new_hnsw_index Sample.hnsw)⟩ :=
    .call member committed
  exact ⟨db,start_.step trivial step,of_decide_eq_true holds⟩

end Sample

theorem hnsw_search_finds_iff_sample : ∃ (s : Db) (inner : HnswInner Sample.hnsw),
    HnswInner.build_inner Sample.hnsw s.toTables Sample.backend.embed_dim = .ok inner ∧ admittedRows Sample.everything s.toTables ≠ [] ∧
    ((∀ (nearest : Nearest inner.index_to_fact.length) (scores : Shuffle (FactId × F64)), ∃ r,
        Commits (hnsw_search Sample.backend { Sample.libraries with scores := scores } (inner.strategy nearest) (Sample.newFact "a").embedding 2
          Sample.everything) s r s ∧
            Finds Sample.libraries.cosine_similarity (Sample.newFact "a").embedding Sample.everything 2 s.toTables r) ↔
      Searchable Sample.backend Sample.libraries.cosine_similarity inner (Sample.newFact "a").embedding 2 Sample.everything s.toTables) := by
  obtain ⟨s,_,one,sized⟩ := Sample.run_of_import
  obtain ⟨inner,built,_,_⟩ := HnswInner.sound_build_inner Sample.sequential sized
  refine ⟨s,inner,built,List.length_pos_iff.mp (by omega),?_⟩
  exact hnsw_search_finds_iff Sample.libraries inner Sample.everything rfl (by decide)

/-- Beside an index that is still empty an imported fact is not found. -/
theorem imported_not_found : ¬ ∀ (hnsw : Hnsw) (self : SqliteBackend) (indexed : Indexed hnsw) (libraries : SearchLibraries)
    (nearest : Nearest indexed.index.index_to_fact.length) (embedding : Embedding) (limit : Nat) (filter : FactFilter),
    Indexed.Run hnsw self (fun _ _ => True) indexed → embedding.length = self.embed_dim → limit ≤ USIZE_MAX →
      ∃ r, Commits (hnsw_search self libraries (indexed.index.strategy nearest) embedding limit filter) indexed.storage r indexed.storage ∧
        Finds libraries.cosine_similarity embedding filter limit indexed.storage.toTables r := by
  intro claim
  obtain ⟨db,run,one,_⟩ := Sample.run_of_import
  obtain ⟨r,searched,finds⟩ := claim Sample.hnsw Sample.backend _ Sample.libraries (.only [] List.nodup_nil (by simp))
    (Sample.newFact "a").embedding 1 Sample.everything run rfl (by decide)
  obtain ⟨rfl,_⟩ := (commits_hnsw_search_empty rfl rfl).mp searched
  have due := finds.count
  rw [one] at due
  cases due

end MemoryEngine
