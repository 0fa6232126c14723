import MemoryEngine.DreamCycle
import MemoryEngine.Dbscan

/-! The shipped cycle. It selects the facts of its window, promotes the most important
fact of a dense cluster, and rescores or quarantines others by their outcomes. -/

namespace MemoryEngine
open Time KeyedTable Transaction Rounding

/-- The bit pattern of 0.15. -/
def EPS : F32 := 0x3E19999A
def MIN_PTS : Nat := 3
def QUARANTINE_NEGATIVE_THRESHOLD : Nat := 3
def METHOD_VERSION : String := "dbscan-v1"
def MAX_DBSCAN_POINTS : Nat := 10000

/-- The facts a delta is about. -/
def CycleDelta.subjects : CycleDelta → List FactId
  | .AddFact _ => []
  | .AdjustScore fact_id _ => [fact_id]
  | .Quarantine fact_id _ => [fact_id]
  | .Promote fact_id _ => [fact_id]
  | .TagOutcome fact_id _ => [fact_id]
  | .Supersede old_id new_id => [old_id,new_id]
  | .Synthesize sources _ => sources

section dbscan
variable (cosine_similarity : Embedding → Embedding → F32)

/-- Two points are similar when their similarity reaches `1 - eps`, which no NaN does. -/
def similar (points : List (FactId × Embedding)) (eps : F32) (i j : Nat) : Bool :=
  match points[i]?,points[j]? with
  | some p,some q => (Datum.sub binary32 (.finite 1) (F32.datum eps)).le (F32.datum (cosine_similarity p.2 q.2))
  | _,_ => false

def neighbours (points : List (FactId × Embedding)) (eps : F32) (i : Nat) : List Nat :=
  (List.range points.length).filter fun j => j ≠ i && similar cosine_similarity points eps i j

/-- Clusters in the order of their discovery, members in the order of the points. -/
def dbscan (points : List (FactId × Embedding)) (eps : F32) (min_pts : Nat) : List (List FactId) :=
  if points.length = 0 ∨ min_pts = 0 then [] else
  if points.length > MAX_DBSCAN_POINTS then [] else
    let labelled := Dbscan.label (neighbours cosine_similarity points eps) min_pts points.length
    (List.range labelled.2).map (Dbscan.members labelled.1 (points.map Prod.fst))

end dbscan

/-- A number clamped to the unit interval. -/
def unitClamp : F64 → Option ℚ
  | .nan => none
  | .num none => some 0
  | .num (some none) => some 1
  | .num (some (some q)) => some (max 0 (min 1 q))

/-- Where the percentile stands among `last + 1` sorted values: the product is rounded to a
    double and then to the nearest integer; NaN stands first. -/
def percentileIndex (p : F64) (last : Nat) : Nat :=
  match unitClamp p with
  | none => 0
  | some q => min ⌊binary64.nearest (q * last) + 1 / 2⌋.toNat last

/-- Nearest-rank percentile, zero of no values. -/
def percentile (values : List SqlReal) (p : F64) : SqlReal :=
  ((values.insertionSort (· ≤ ·))[percentileIndex p (values.length - 1)]?).getD ((0 : ℚ) : WithTop ℚ)

structure DreamCycleConfig where
  promotion_percentile : F64 := F64.ofRat (3 / 4)

structure DefaultDreamCycle where
  config : DreamCycleConfig

namespace DefaultDreamCycle

section selection
variable (facts : List Fact)

/-- The importance of a selected fact. -/
def importanceOf (id : FactId) : SqlReal := ((facts.find? fun f => f.id == id).map Fact.base_importance).getD ⊥

/-- The first fact comes out above the second: it is more important, or as important and
    older. -/
def outranks (a b : FactId) : Prop := importanceOf facts b < importanceOf facts a ∨ importanceOf facts a = importanceOf facts b ∧ a < b

instance (a b : FactId) : Decidable (outranks facts a b) := inferInstanceAs (Decidable (_ ∨ _))

/-- The highest-ranking member of a cluster. -/
def medoid : List FactId → Option FactId
  | [] => none
  | first :: rest => some (rest.foldl (fun best id => if outranks facts best id then best else id) first)

/-- The provenance of a promotion from a cluster; `now` stands for the clock, which is asked
    only for a cluster without members. -/
def cluster_provenance (now : DateTime) (cluster : List FactId) : PromotionProvenance :=
  let created := cluster.filterMap fun id => (facts.find? fun f => f.id == id).map Fact.t_created
  { source_count := cluster.length % 2 ^ 32
    session_count := 1
    date_range_start := created.min?.getD now
    date_range_end := created.max?.getD now
    confidence := F64.ofRat (binary64.nearest (1 - binary64.nearest (1 / cluster.length)))
    method_version := METHOD_VERSION
    representative_ids := cluster.take 5 }

def bucket (fact_type : FactType) : List Fact := facts.filter fun f => f.fact_type == fact_type

variable (cosine_similarity : Embedding → Embedding → F32)

/-- The clusters of one type, where there are facts enough. -/
def clusters (fact_type : FactType) : List (List FactId) :=
  if (bucket facts fact_type).length < MIN_PTS then [] else
    dbscan cosine_similarity ((bucket facts fact_type).map fun f => (f.id,f.embedding)) EPS MIN_PTS

/-- The promotion a cluster yields, if its representative is important enough. -/
def promotionOf (now : DateTime) (threshold : SqlReal) (cluster : List FactId) : Option (FactId × PromotionProvenance) :=
  match medoid facts cluster with
  | none => none
  | some id => if threshold ≤ importanceOf facts id then some (id,cluster_provenance facts now cluster) else none

def typePromotions (config : DreamCycleConfig) (now : DateTime) (fact_type : FactType) : List (FactId × PromotionProvenance) :=
  (clusters facts cosine_similarity fact_type).filterMap
    (promotionOf facts now (percentile ((bucket facts fact_type).map Fact.base_importance) config.promotion_percentile))

def promotions (config : DreamCycleConfig) (now : DateTime) : List (FactId × PromotionProvenance) :=
  [.Episodic,.Semantic,.Procedural].flatMap (typePromotions facts cosine_similarity config now)

end selection

/-- What the outcomes of a fact lead to. -/
def rescore (counts : OutcomeCounts) (id : FactId) : Option CycleDelta :=
  if counts.positive = 0 ∧ counts.negative ≥ QUARANTINE_NEGATIVE_THRESHOLD then some (.Quarantine id "consistent negative outcomes") else
  let net : Int := counts.positive - counts.negative
  if net ≠ 0 then some (.AdjustScore id (Int16.ofInt (max (-2) (min 2 net)))) else none

def deltas (facts : List Fact) (promoted : List (FactId × PromotionProvenance)) (outcome_counts : FactId → Option OutcomeCounts) : List CycleDelta :=
  promoted.map (fun p => .Promote p.1 p.2) ++ facts.filterMap fun f =>
    if f.id ∈ promoted.map Prod.fst then none else rescore ((outcome_counts f.id).getD {}) f.id

/-- One more than the last number of the cycles before. -/
def cycle_id (prior_reports : List CycleMetadata) : Nat :=
  match (prior_reports.map CycleMetadata.cycle_id).max? with
  | none => 0
  | some last => last + 1

variable (ctx : MemoryCtx) (cosine_similarity : Embedding → Embedding → F32)

def run (cycle : DefaultDreamCycle) (ran_at : DateTime) (c : CycleContext) : Op CycleReport := do
  let window := c.time_window
  let facts ← port (FactStore.list_undreamt_in_period ctx.backend window.start window.end [] none)
  let promoted := promotions facts cosine_similarity cycle.config ran_at
  let outcome_ids := (facts.map Fact.id).filter fun id => id ∉ promoted.map Prod.fst
  let outcome_counts ← port (EventStore.count_outcome_signals_batch outcome_ids)
  return {
    deltas := deltas facts promoted outcome_counts
    identity := ⟨[],[],[]⟩
    metadata := ⟨cycle_id c.prior_reports,ran_at,window,facts.length,METHOD_VERSION,facts.map Fact.id⟩ }

/-- The shipped cycle as a cycle. -/
def toDreamCycle (cycle : DefaultDreamCycle) (ran_at : DateTime) : DreamCycle := ⟨cycle.run ctx cosine_similarity ran_at⟩

/-- A report about facts that were selected: each is the subject of one delta at most, a
    promoted one of no other, and a cluster promotes its most important member at most. -/
structure Planned (facts : List Fact) (report : CycleReport) : Prop where
  once : (report.deltas.flatMap CycleDelta.subjects).Nodup
  apart : ∀ id provenance, .Promote id provenance ∈ report.deltas →
    (∀ reason, .Quarantine id reason ∉ report.deltas) ∧ ∀ adjustment, .AdjustScore id adjustment ∉ report.deltas
  top : ∀ fact_type, ∀ cluster ∈ clusters facts cosine_similarity fact_type, ∀ id ∈ cluster, ∀ provenance, .Promote id provenance ∈ report.deltas →
    ∀ other ∈ cluster, importanceOf facts other ≤ importanceOf facts id ∧
      (other ≠ id → ∀ provenance', .Promote other provenance' ∉ report.deltas)

section plan
variable {cosine_similarity} {facts : List Fact}

theorem outranks_trans {a b c : FactId} (first : ¬ outranks facts a b) (second : ¬ outranks facts b c) : ¬ outranks facts a c := by
  simp only [outranks,not_or,not_lt,not_and] at first second ⊢
  refine ⟨first.1.trans second.1,fun same => ?_⟩
  have level : importanceOf facts a = importanceOf facts b := le_antisymm first.1 (second.1.trans same.ge)
  exact (second.2 (level.symm.trans same)).trans (first.2 level)

theorem not_outranks_self (a : FactId) : ¬ outranks facts a a := by
  simp [outranks]

/-- Of two facts one does not outrank the other. -/
theorem outranks_asymm {a b : FactId} (first : outranks facts a b) : ¬ outranks facts b a := by
  simp only [outranks,not_or,not_lt,not_and]
  rcases first with above | ⟨level,older⟩
  · exact ⟨above.le,fun same => absurd same.symm above.ne'⟩
  · exact ⟨level.ge,fun _ => older.le⟩

/-- The representative is a member that no member outranks. -/
theorem medoid_spec {cluster : List FactId} {id : FactId} (chosen : medoid facts cluster = some id) :
    id ∈ cluster ∧ ∀ other ∈ cluster, ¬ outranks facts other id := by
  have loop : ∀ (rest : List FactId) (best : FactId),
      (rest.foldl (fun best id => if outranks facts best id then best else id) best ∈ best :: rest) ∧
        ∀ other ∈ best :: rest, ¬ outranks facts other (rest.foldl (fun best id => if outranks facts best id then best else id) best) := by
    intro rest
    induction rest with
    | nil =>
      intro best
      refine ⟨List.mem_cons_self,fun other listed => ?_⟩
      rw [List.mem_singleton.mp listed]
      exact not_outranks_self best
    | cons next rest ih =>
      intro best
      rw [List.foldl_cons]
      by_cases stays : outranks facts best next
      · rw [if_pos stays]
        obtain ⟨member,top⟩ := ih best
        refine ⟨List.cons_subset_cons best (List.subset_cons_self next rest) member,fun other listed => ?_⟩
        rcases List.mem_cons.mp listed with rfl | later
        · exact top other List.mem_cons_self
        · rcases List.mem_cons.mp later with rfl | later
          · exact outranks_trans (outranks_asymm stays) (top best List.mem_cons_self)
          · exact top other (List.mem_cons_of_mem _ later)
      · rw [if_neg stays]
        obtain ⟨member,top⟩ := ih next
        refine ⟨List.mem_cons_of_mem _ member,fun other listed => ?_⟩
        rcases List.mem_cons.mp listed with rfl | later
        · exact outranks_trans stays (top next List.mem_cons_self)
        · exact top other later
  cases cluster with
  | nil => cases chosen
  | cons first rest =>
    obtain rfl := Option.some.inj chosen
    exact loop rest first

/-- A cluster consists of facts of its type. -/
theorem mem_clusters {fact_type : FactType} {cluster : List FactId} (listed : cluster ∈ clusters facts cosine_similarity fact_type) :
    ∀ id ∈ cluster, ∃ f ∈ facts, f.fact_type = fact_type ∧ f.id = id := by
  unfold clusters dbscan at listed
  split at listed
  · cases listed
  · split at listed
    · cases listed
    · split at listed
      · cases listed
      · obtain ⟨number,_,rfl⟩ := List.mem_map.mp listed
        intro id member
        have held := (Dbscan.members_sublist number).subset member
        rw [List.map_map,List.mem_map] at held
        obtain ⟨f,there,same⟩ := held
        obtain ⟨inside,kind⟩ := List.mem_filter.mp there
        exact ⟨f,inside,beq_iff_eq.mp kind,same⟩

theorem clusters_disjoint (distinct : (facts.map Fact.id).Nodup) (fact_type : FactType) :
    (clusters facts cosine_similarity fact_type).Pairwise List.Disjoint := by
  unfold clusters dbscan
  split
  · exact .nil
  · split
    · exact .nil
    · split
      · exact .nil
      · rw [List.map_map]
        have own : ((bucket facts fact_type).map (Prod.fst ∘ fun f => (f.id,f.embedding))).Nodup :=
          distinct.sublist (List.filter_sublist.map _)
        refine List.pairwise_map.mpr (List.Pairwise.imp ?_ List.nodup_range)
        exact fun apart => Dbscan.members_disjoint own apart

/-- A cluster promotes its representative at most. -/
theorem promotionOf_eq_some {now : DateTime} {threshold : SqlReal} {cluster : List FactId} {p : FactId × PromotionProvenance}
    (yields : promotionOf facts now threshold cluster = some p) : medoid facts cluster = some p.1 := by
  unfold promotionOf at yields
  split at yields
  · cases yields
  · rename_i id chosen
    split at yields
    · obtain rfl := Option.some.inj yields
      exact chosen
    · cases yields

/-- A promotion goes back to the cluster whose representative it promotes. -/
theorem mem_typePromotions {config : DreamCycleConfig} {now : DateTime} {fact_type : FactType} {p : FactId × PromotionProvenance}
    (listed : p ∈ typePromotions facts cosine_similarity config now fact_type) :
    ∃ cluster ∈ clusters facts cosine_similarity fact_type, medoid facts cluster = some p.1 := by
  obtain ⟨cluster,there,yields⟩ := List.mem_filterMap.mp listed
  exact ⟨cluster,there,promotionOf_eq_some yields⟩

theorem mem_promotions {config : DreamCycleConfig} {now : DateTime} {p : FactId × PromotionProvenance}
    (listed : p ∈ promotions facts cosine_similarity config now) :
    ∃ fact_type, ∃ cluster ∈ clusters facts cosine_similarity fact_type, medoid facts cluster = some p.1 := by
  obtain ⟨fact_type,_,there⟩ := List.mem_flatMap.mp listed
  exact ⟨fact_type,mem_typePromotions there⟩

/-- A fact is in one cluster at most. -/
theorem cluster_unique (distinct : (facts.map Fact.id).Nodup) {fact_type fact_type' : FactType} {cluster cluster' : List FactId} {id : FactId}
    (listed : cluster ∈ clusters facts cosine_similarity fact_type) (listed' : cluster' ∈ clusters facts cosine_similarity fact_type')
    (member : id ∈ cluster) (member' : id ∈ cluster') : cluster = cluster' := by
  obtain ⟨f,held,kind,same⟩ := mem_clusters listed id member
  obtain ⟨g,held',kind',same'⟩ := mem_clusters listed' id member'
  obtain rfl : f = g := List.inj_on_of_nodup_map distinct held held' (same.trans same'.symm)
  obtain rfl : fact_type = fact_type' := kind.symm.trans kind'
  by_contra apart
  have swap : Std.Symm (@List.Disjoint FactId) := ⟨fun _ _ separate => separate.symm⟩
  have separate : cluster.Disjoint cluster' := (clusters_disjoint distinct fact_type).forall listed listed' apart
  exact separate member member'

theorem typePromotions_nodup (distinct : (facts.map Fact.id).Nodup) (config : DreamCycleConfig) (now : DateTime) (fact_type : FactType) :
    ((typePromotions facts cosine_similarity config now fact_type).map Prod.fst).Nodup := by
  rw [List.Nodup,List.pairwise_map,typePromotions,List.pairwise_filterMap]
  refine (clusters_disjoint distinct fact_type).imp fun {cluster cluster'} separate p yields p' yields' same => ?_
  have member := (medoid_spec (promotionOf_eq_some yields)).1
  have member' := (medoid_spec (promotionOf_eq_some yields')).1
  rw [← same] at member'
  exact separate member member'

/-- A promoted fact is a selected fact of the type that promotes it. -/
theorem typePromotions_selected {config : DreamCycleConfig} {now : DateTime} {fact_type : FactType} {id : FactId}
    (listed : id ∈ (typePromotions facts cosine_similarity config now fact_type).map Prod.fst) :
    ∃ f ∈ facts, f.fact_type = fact_type ∧ f.id = id := by
  obtain ⟨p,there,rfl⟩ := List.mem_map.mp listed
  obtain ⟨cluster,held,chosen⟩ := mem_typePromotions there
  exact mem_clusters held _ (medoid_spec chosen).1

/-- No fact is promoted twice. -/
theorem promotions_nodup (distinct : (facts.map Fact.id).Nodup) (config : DreamCycleConfig) (now : DateTime) :
    ((promotions facts cosine_similarity config now).map Prod.fst).Nodup := by
  rw [promotions,List.map_flatMap,List.nodup_flatMap]
  refine ⟨fun fact_type _ => typePromotions_nodup distinct config now fact_type,?_⟩
  have kinds : [FactType.Episodic,.Semantic,.Procedural].Nodup := by decide
  refine kinds.imp fun {fact_type fact_type'} apart id listed listed' => apart ?_
  obtain ⟨f,held,kind,same⟩ := typePromotions_selected listed
  obtain ⟨g,held',kind',same'⟩ := typePromotions_selected listed'
  obtain rfl : f = g := List.inj_on_of_nodup_map distinct held held' (same.trans same'.symm)
  exact kind.symm.trans kind'

theorem promotions_selected {config : DreamCycleConfig} {now : DateTime} {id : FactId}
    (listed : id ∈ (promotions facts cosine_similarity config now).map Prod.fst) : ∃ f ∈ facts, f.id = id := by
  rw [promotions,List.map_flatMap] at listed
  obtain ⟨fact_type,_,there⟩ := List.mem_flatMap.mp listed
  obtain ⟨f,held,_,same⟩ := typePromotions_selected there
  exact ⟨f,held,same⟩

section report
variable {promoted : List (FactId × PromotionProvenance)} {outcome_counts : FactId → Option OutcomeCounts}

/-- Outcomes adjust within the bounds, or expire. -/
theorem rescore_eq_some {counts : OutcomeCounts} {id : FactId} {delta : CycleDelta} (yields : rescore counts id = some delta) :
    (∃ reason, delta = .Quarantine id reason) ∨ ∃ adjustment, delta = .AdjustScore id adjustment ∧ ¬ adjustment.abs > MAX_ADJUSTMENT := by
  unfold rescore at yields
  split at yields
  · obtain rfl := Option.some.inj yields
    exact .inl ⟨_,rfl⟩
  · dsimp only at yields
    split at yields
    · obtain rfl := Option.some.inj yields
      refine .inr ⟨_,rfl,?_⟩
      generalize (counts.positive - counts.negative : Int) = net
      have cases_ : max (-2) (min 2 net) = -2 ∨ max (-2) (min 2 net) = -1 ∨ max (-2) (min 2 net) = 0 ∨ max (-2) (min 2 net) = 1 ∨ max (-2) (min 2 net) = 2 := by
        omega
      rcases cases_ with same | same | same | same | same <;> rw [same] <;> decide
    · cases yields

theorem rescore_subjects {counts : OutcomeCounts} {id : FactId} {delta : CycleDelta} (yields : rescore counts id = some delta) :
    delta.subjects = [id] := by
  rcases rescore_eq_some yields with ⟨reason,rfl⟩ | ⟨adjustment,rfl,_⟩ <;> rfl

/-- A delta promotes, or rescores a fact that is not promoted. -/
theorem mem_deltas {delta : CycleDelta} : delta ∈ deltas facts promoted outcome_counts ↔ (∃ p ∈ promoted, delta = .Promote p.1 p.2) ∨
    ∃ f ∈ facts, f.id ∉ promoted.map Prod.fst ∧ rescore ((outcome_counts f.id).getD {}) f.id = some delta := by
  rw [deltas,List.mem_append,List.mem_map,List.mem_filterMap]
  refine or_congr ?_ ?_
  · exact exists_congr fun p => and_congr_right fun _ => eq_comm
  · refine exists_congr fun f => and_congr_right fun _ => ?_
    by_cases chosen : f.id ∈ promoted.map Prod.fst
    · simp [chosen]
    · simp [chosen]

theorem promote_mem_deltas {id : FactId} {provenance : PromotionProvenance}
    (listed : .Promote id provenance ∈ deltas facts promoted outcome_counts) : (id,provenance) ∈ promoted := by
  rcases mem_deltas.mp listed with ⟨p,there,same⟩ | ⟨f,_,_,yields⟩
  · obtain ⟨rfl,rfl⟩ := CycleDelta.Promote.inj same
    exact there
  · rcases rescore_eq_some yields with ⟨_,same⟩ | ⟨_,same,_⟩ <;> cases same

/-- The facts that outcomes rescore are selected and not promoted. -/
theorem rescored_subjects (promoted : List (FactId × PromotionProvenance)) (outcome_counts : FactId → Option OutcomeCounts) (facts : List Fact) :
    ((facts.filterMap fun f => if f.id ∈ promoted.map Prod.fst then none else
      rescore ((outcome_counts f.id).getD {}) f.id).flatMap CycleDelta.subjects).Sublist
        ((facts.map Fact.id).filter fun id => id ∉ promoted.map Prod.fst) := by
  induction facts with
  | nil => exact List.Sublist.slnil
  | cons f rest ih =>
    rw [List.map_cons,List.filterMap_cons]
    by_cases chosen : f.id ∈ promoted.map Prod.fst
    · rw [if_pos chosen,List.filter_cons_of_neg (by simpa using chosen)]
      exact ih
    · rw [if_neg chosen,List.filter_cons_of_pos (by simpa using chosen)]
      cases yields : rescore ((outcome_counts f.id).getD {}) f.id with
      | none => exact ih.cons f.id
      | some delta =>
        rw [List.flatMap_cons,rescore_subjects yields]
        exact ih.cons_cons f.id

/-- Each fact is the subject of one delta at most. -/
theorem subjects_nodup (distinct : (facts.map Fact.id).Nodup) (once : (promoted.map Prod.fst).Nodup) :
    ((deltas facts promoted outcome_counts).flatMap CycleDelta.subjects).Nodup := by
  have first : (promoted.map fun p => CycleDelta.Promote p.1 p.2).flatMap CycleDelta.subjects = promoted.map Prod.fst := by
    rw [List.flatMap_map]
    exact List.map_eq_flatMap.symm
  rw [deltas,List.flatMap_append,first]
  have rest := rescored_subjects promoted outcome_counts facts
  refine List.nodup_append.mpr ⟨once,(distinct.filter _).sublist rest,?_⟩
  intro id chosen other rescored same
  have free := (List.mem_filter.mp (rest.subset rescored)).2
  rw [← same] at free
  exact absurd chosen (by simpa using free)

/-- What the cycle proposes is planned. -/
theorem planned (distinct : (facts.map Fact.id).Nodup) (config : DreamCycleConfig) (now : DateTime) {report : CycleReport}
    (proposed : report.deltas = deltas facts (promotions facts cosine_similarity config now) outcome_counts) :
    Planned cosine_similarity facts report := by
  have once : ((promotions facts cosine_similarity config now).map Prod.fst).Nodup := promotions_nodup distinct config now
  refine ⟨?_,?_,?_⟩
  · rw [proposed]
    exact subjects_nodup distinct once
  · intro id provenance listed
    rw [proposed] at listed ⊢
    have chosen : id ∈ (promotions facts cosine_similarity config now).map Prod.fst := List.mem_map_of_mem (promote_mem_deltas listed)
    have alone : ∀ delta ∈ deltas facts (promotions facts cosine_similarity config now) outcome_counts, id ∈ delta.subjects →
        ∃ provenance, delta = .Promote id provenance := by
      intro delta there about
      rcases mem_deltas.mp there with ⟨p,_,rfl⟩ | ⟨f,_,free,yields⟩
      · rw [List.mem_singleton.mp about]
        exact ⟨p.2,rfl⟩
      · rw [rescore_subjects yields] at about
        rw [← List.mem_singleton.mp about] at free
        exact absurd chosen free
    constructor
    · intro reason there
      obtain ⟨_,same⟩ := alone _ there (List.mem_singleton_self id)
      cases same
    · intro adjustment there
      obtain ⟨_,same⟩ := alone _ there (List.mem_singleton_self id)
      cases same
  · intro fact_type cluster listed id member provenance there other inside
    have chosen : ∀ id ∈ cluster, ∀ provenance, .Promote id provenance ∈ report.deltas → medoid facts cluster = some id := by
      intro id member provenance there
      rw [proposed] at there
      obtain ⟨fact_type',cluster',listed',best⟩ := mem_promotions (promote_mem_deltas there)
      rwa [cluster_unique distinct listed listed' member (medoid_spec best).1]
    have best := chosen id member provenance there
    have top : ¬ outranks facts other id := (medoid_spec best).2 other inside
    refine ⟨not_lt.mp (not_or.mp top).1,fun apart provenance' again => apart ?_⟩
    have same := chosen other inside provenance' again
    rw [best] at same
    exact (Option.some.inj same).symm

end report

end plan

/-- Counting outcomes reads only. -/
theorem reads_count {fact_ids : List FactId} {s t : Db} {outcome_counts : FactId → Option OutcomeCounts}
    (committed : Commits (EventStore.count_outcome_signals_batch fact_ids) s outcome_counts t) : t = s := by
  unfold EventStore.count_outcome_signals_batch at committed
  split at committed
  · exact (commits_pure.mp committed).2
  · obtain ⟨_,_,listed,reading⟩ := commits_bind.mp committed
    obtain ⟨_,rfl⟩ := commits_query.mp listed
    obtain ⟨_,_,read,checking⟩ := commits_bind.mp reading
    obtain ⟨_,rfl⟩ := commits_lift.mp read
    obtain ⟨_,_,fits,last⟩ := commits_bind.mp checking
    obtain ⟨_,rfl⟩ := commits_require.mp fits
    exact (commits_pure.mp last).2

variable {ctx cosine_similarity}

/-- A run selects the undreamt facts of its window and proposes a plan for them. -/
theorem commits_run {cycle : DefaultDreamCycle} {ran_at : DateTime} {c : CycleContext} {s t : Engine} {report : CycleReport}
    (committed : Commits (cycle.run ctx cosine_similarity ran_at c) s report t) : t = s ∧ ∃ facts outcome_counts,
      facts = FactStore.undreamtRows c.time_window.start c.time_window.end [] none s.storage.toTables ∧
        (∀ f ∈ facts, f.Readable ctx.backend.embed_dim) ∧ report.metadata.processed_ids = facts.map Fact.id ∧
          report.deltas = deltas facts (promotions facts cosine_similarity cycle.config ran_at) outcome_counts := by
  obtain ⟨facts,_,ported,rest⟩ := commits_bind.mp committed
  obtain ⟨_,listed,rfl⟩ := commits_port.mp ported
  obtain ⟨selected,readable,rfl⟩ := commits_readRows.mp listed
  rw [← selected] at readable
  obtain ⟨outcome_counts,_,counted,last⟩ := commits_bind.mp rest
  obtain ⟨_,signals,rfl⟩ := commits_port.mp counted
  obtain rfl := reads_count signals
  obtain ⟨rfl,rfl⟩ := commits_pure.mp last
  exact ⟨rfl,facts,outcome_counts,selected,readable,rfl,rfl⟩

end DefaultDreamCycle
end MemoryEngine
