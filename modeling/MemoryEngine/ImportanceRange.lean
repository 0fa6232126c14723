import MemoryEngine.AdjustRange
import MemoryEngine.ImportedFacts
import MemoryEngine.PublicWrites
import MemoryEngine.ScoreRange

/-! The two columns that scores are computed from, over runs. A conflict resolution, a
promotion, an import and a restore take the importance as it is given, and nobody checks
the access count of a new fact. -/

namespace MemoryEngine
open Time KeyedTable Transaction Ingest Importer

/-- A number between zero and one. NaN is left to the column, which takes none. -/
def F64.UnitNumber (x : F64) : Prop := x ≠ .nan → x.InUnit

/-- An active fact counts no negative accesses, and its importance is between zero and one. -/
def Fact.InRange (f : Fact) : Prop := f.t_expired = none → 0 ≤ f.access_count ∧ (F64.num f.base_importance).InUnit

def NewFact.InRange (fact : NewFact) : Prop := fact.t_expired = none → 0 ≤ fact.access_count ∧ fact.base_importance.UnitNumber

/-- What no caller checks: the importance of a promotion and of an extracted fact, both
    columns of the fact that a resolution inserts, and the access count of the facts that
    a report brings along. -/
def PublicWrite.InRange : PublicWrite → Prop
  | promote req _ => req.importance.UnitNumber
  | resolve_conflict decision _ new_fact _ => decision = .Add ∨ decision = .Update → new_fact.InRange
  | apply_cycle_report _ report _ => ∀ delta ∈ report.deltas, ∀ nf ∈ delta.newFact, nf.t_expired = none → 0 ≤ nf.access_count
  | import_session _ session => ∀ prepared ∈ session.facts, prepared.1.base_importance.UnitNumber
  | _ => True

/-- A store to begin with: an empty one, or one restored from a dump whose facts are in range. -/
inductive Begun (s : Db) : Prop where
  | empty (none_ : s.facts.rows = [])
  | restored {from_str : String → Except String EmbeddingFingerprint} {snapshot : EngineSnapshot} {e : Db}
      (ranged : ∀ f ∈ snapshot.facts, f.InRange) (committed : Commits (restore_snapshot_into from_str snapshot) e () s)

namespace ImportanceRange
variable {self : SqliteBackend}

def rule : RowRule where
  holds := Fact.InRange
  carried f f' same holds active := by
    obtain ⟨counted,unit⟩ := holds (same.expired active)
    exact ⟨counted.trans same.counted,same.importance ▸ unit⟩

theorem admits {fact : NewFact} (ranged : fact.InRange) : rule.Admits self fact := by
  intro importance id given active
  obtain ⟨counted,unit⟩ := ranged active
  rw [given] at unit
  exact ⟨counted,unit F64.noConfusion⟩

/-- A reinforcement takes the larger of two importances. -/
theorem raises {importance : SqlReal} (unit : (F64.num importance).InUnit) : rule.Raises importance := by
  intro f holds active
  obtain ⟨counted,own⟩ := holds active
  refine ⟨counted,F64.inUnit_num.mpr ?_⟩
  exact ⟨le_max_of_le_left (F64.inUnit_num.mp own).1,max_le (F64.inUnit_num.mp own).2 (F64.inUnit_num.mp unit).2⟩

theorem takes {fact : NewFact} (counted : fact.access_count = 0) (unit : fact.base_importance.UnitNumber) (marker_id : Option Int) :
    rule.Takes self (Bootstrap.linked marker_id fact) := by
  have same : (Bootstrap.linked marker_id fact).access_count = 0 ∧ (Bootstrap.linked marker_id fact).base_importance = fact.base_importance := by
    cases marker_id with
    | none => exact ⟨counted,rfl⟩
    | some id => exact ⟨counted,rfl⟩
  refine ⟨admits fun _ => ⟨same.1.ge,same.2.symm ▸ unit⟩,fun importance given => raises ?_⟩
  rw [same.2] at given
  rw [given] at unit
  exact unit F64.noConfusion

theorem merges (id : FactId) (fields : List (String × Json)) : rule.Merges id fields := fun _ _ holds => holds

/-- An adjustment is clamped. -/
theorem adjusts (id : FactId) (adjustment : Int16) (current : SqlReal) : rule.Sets id (Cycle.adjusted self adjustment current) := by
  intro f _ holds active
  refine ⟨(holds active).1,F64.inUnit_num.mpr ⟨le_max_left _ _,max_le ?_ (min_le_left _ _)⟩⟩
  exact WithBot.coe_le_coe.mpr (WithTop.coe_le_coe.mpr zero_le_one)

/-- A fact of a request starts active without an access. -/
theorem admits_request {req : AddFactRequest} (valid : validate_add_fact_request self req = .ok ()) (embedding : Embedding) (scope_id : Int)
    (is_pinned : Bool) (now : DateTime) : rule.Admits self (req.newFact embedding scope_id is_pinned now) :=
  admits fun _ => ⟨le_refl _,fun _ => (importance_of_valid self valid).2⟩

theorem unit_of_checked {nf : NewFact} (checked : nf.Checked self) : nf.base_importance.UnitNumber := fun _ => checked.bounded.2

theorem fits {m t : Db} {write : PublicWrite} (issued : write.Issued self) (ranged : write.InRange)
    (committed : Commits ((write.call self).run self) m () t) : write.Fits rule self m.toTables := by
  cases write with
  | add_fact req embedding scope_id is_pinned fingerprint now => exact admits_request issued _ _ _ _
  | add_facts_batch entries embeddings classifier fingerprint now =>
    intro fact listed scope_id
    obtain ⟨x,among,rfl⟩ := List.mem_map.mp listed
    have entry : x.1.1 ∈ entries := (List.of_mem_zip (List.of_mem_zip among).1).1
    exact admits_request (issued _ entry) x.1.2 scope_id x.2 now
  | promote req now => exact fun scope_id => admits fun _ => ⟨le_refl _,ranged⟩
  | resolve_conflict decision old_id new_fact now => exact fun inserts => admits (ranged inserts)
  | apply_cycle_report codec report now =>
    obtain ⟨pass,_,applied,_⟩ := commits_bind.mp committed
    have checked := Cycle.checked_of_report applied
    refine ⟨fun delta listed => ?_,fun id => merges id _⟩
    cases delta with
    | AddFact nf => exact admits fun active => ⟨ranged _ listed nf rfl active,unit_of_checked (checked _ listed nf rfl)⟩
    | AdjustScore fact_id adjustment => exact fun current => adjusts fact_id adjustment current
    | Quarantine fact_id reason => exact merges fact_id _
    | Promote fact_id provenance =>
      intro f _ _ active importance holds
      exact admits fun _ => ⟨le_refl _,fun _ => (holds active).2⟩
    | TagOutcome fact_id outcome => trivial
    | Supersede old_id new_id => trivial
    | Synthesize sources nf => exact admits fun active => ⟨ranged _ listed nf rfl active,unit_of_checked (checked _ listed nf rfl)⟩
  | import_session call session =>
    obtain ⟨_,scope_id,log,ran⟩ := issued
    intro prepared listed marker_id
    exact takes ((gives_session call.parsed log).2 session ran prepared listed).counted (ranged prepared listed) marker_id
  | import_memory_file ctx file prepared fingerprint =>
    obtain ⟨_,log,ran⟩ := issued
    intro marker_id
    obtain ⟨importance,counted,_⟩ := fromFile ran
    refine takes counted ?_ marker_id
    rw [importance]
    exact fun _ => ⟨F64.le_ofRat.mpr (by norm_num),F64.le_ofRat.mpr (by norm_num)⟩
  | consolidate run snapshot plan => trivial
  | routine call => trivial

theorem of_begun {s : Db} (begun : Begun s) : rule.Of s.toTables := by
  cases begun with
  | empty none_ =>
    intro f member
    rw [none_] at member
    cases member
  | restored ranged committed => exact fun f member => ranged f (Restore.restored_facts committed f member)

end ImportanceRange

/-- Where the writes of a run are in range, so are the active facts. Then a policy that is
    valid and whose weights do not overflow together scores every one of them finite, with
    logarithms of positive numbers only, and the scores can be written. -/
theorem importance_in_range {self : SqliteBackend} {s t : Db} (begun : Begun s) (run : Written self (fun _ write => write.InRange) s t) :
    (∀ f ∈ t.facts.rows, f.InRange) ∧
    ∀ (libm : Libm) (policy : ForgetPolicy), libm.Sound → policy.validate = .ok () → policy.total.is_finite = true →
      ∀ (graph : MemoryGraph) (now : DateTime),
        (∀ f ∈ t.activeFacts, (F64.ofRat (-1)).lt (F64.ofInt f.access_count) = true ∧
          (Forget.compute_importance libm f.scoring (graph.degree f.id) now policy).is_finite = true) ∧
        ∃ t', Commits (FactStore.update_importance_scores_bulk self
          (Forget.score (Forget.compute_importance libm) graph (t.activeFacts.map Fact.scoring) now policy)) t () t' := by
  have ranged : ImportanceRange.rule.Of t.toTables :=
    run.keeps (fun _ _ _ issued ranged committed => ImportanceRange.fits issued ranged committed) (ImportanceRange.of_begun begun)
  refine ⟨ranged,fun libm policy sound valid total graph now => ?_⟩
  have scored : ∀ f ∈ t.activeFacts, (Forget.compute_importance libm f.scoring (graph.degree f.id) now policy).is_finite = true := by
    intro f active
    obtain ⟨member,unexpired⟩ := List.mem_filter.mp active
    obtain ⟨counted,unit⟩ := ranged f member (Option.isNone_iff_eq_none.mp unexpired)
    exact Forget.score_finite sound valid total counted unit _ now
  refine ⟨fun f active => ⟨?_,scored f active⟩,Forget.update_importance_scores_bulk_commits_iff.mpr fun entry listed => ?_⟩
  · obtain ⟨member,unexpired⟩ := List.mem_filter.mp active
    obtain ⟨counted,_⟩ := ranged f member (Option.isNone_iff_eq_none.mp unexpired)
    exact Forget.above_minus_one counted
  · obtain ⟨f,active,rfl⟩ := (Forget.mem_score _ graph policy now).mp listed
    exact scored f active

namespace ImportanceRange.Sample
open MemoryEngine.Sample

def request : AddFactRequest := ⟨"a",.Semantic,none,none,none⟩

/-- The first fact of a store. -/
def first : PublicWrite := .add_fact request [0x3F000000] 1 false space.fingerprint moment

/-- A second fact beside the first, with an access count. -/
def second (access_count : Int) : PublicWrite := .resolve_conflict .Add 1 { newFact "b" with access_count := access_count } moment

def writes (access_count : Int) : Sql Unit := do
  (first.call backend).run backend
  ((second access_count).call backend).run backend

/-- The functions at the numbers of the sample, minus one among them. -/
def libm : Libm where
  exp2 _ := F64.ofRat 1
  ln x := if x = F64.ofRat 101 then F64.ofRat (5196163759979057 / 2 ^ 50) else
    if x = F64.ofRat 51 then F64.ofRat (8853684227211519 / 2 ^ 51) else F64.ofRat 1
  ln_1p x := if x = F64.ofRat (-1) then .num ⊥ else if x = F64.ofRat 1 then F64.ofRat (6243314768165359 / 2 ^ 53) else x

theorem sound : libm.Sound := by
  refine ⟨fun x _ => ⟨F64.le_ofRat.mpr zero_le_one,F64.le_ofRat.mpr le_rfl⟩,fun x _ _ => ?_,fun x positive => ?_⟩
  · simp only [libm]
    split
    · exact ⟨F64.finite_iff.mpr ⟨_,rfl⟩,F64.lt_ofRat.mpr (by norm_num)⟩
    · split
      · exact ⟨F64.finite_iff.mpr ⟨_,rfl⟩,F64.lt_ofRat.mpr (by norm_num)⟩
      · exact ⟨F64.finite_iff.mpr ⟨_,rfl⟩,F64.lt_ofRat.mpr (by norm_num)⟩
  · simp only [libm]
    split
    · rename_i minus
      rw [minus] at positive
      exact absurd (F64.le_ofRat.mp positive) (by norm_num)
    · split
      · exact F64.le_ofRat.mpr (by norm_num)
      · exact positive

/-- Every signal counts a quarter. -/
def policy : ForgetPolicy :=
  { Forget.Sample.policy with
    recency_weight := F64.ofRat (1 / 4)
    frequency_weight := F64.ofRat (1 / 4)
    graph_degree_weight := F64.ofRat (1 / 4)
    base_importance_weight := F64.ofRat (1 / 4) }

theorem begun : Begun Db.fresh := .empty rfl

/-- Two writes in a row. -/
theorem written {allowed : Db → PublicWrite → Prop} {access_count : Int} {t : Db} (may : ∀ m, allowed m first)
    (may' : ∀ m, allowed m (second access_count)) (committed : Commits (writes access_count) Db.fresh () t) :
    Written backend allowed Db.fresh t := by
  obtain ⟨_,m,inserted,resolved⟩ := commits_bind.mp committed
  have issued : first.Issued backend := rfl
  have issued' : (second access_count).Issued backend := rfl
  exact .step (.one issued (may _) inserted) issued' (may' m) resolved

end ImportanceRange.Sample

open ImportanceRange.Sample in
theorem importance_in_range_sample : ∃ t : Db, t.activeFacts.length = 2 ∧ (∀ f ∈ t.facts.rows, f.InRange) ∧
    ∃ t', Commits (FactStore.update_importance_scores_bulk Sample.backend
      (Forget.score (Forget.compute_importance libm) Sample.engine.graph (t.activeFacts.map Fact.scoring) Sample.moment policy)) t () t' := by
  have ends : Ends (writes 0) Db.fresh (fun _ t => t.activeFacts.length == 2) = true := by decide +kernel
  obtain ⟨_,t,committed,two⟩ := commits_of_ends ends
  have ranged : (second 0).InRange := fun _ _ =>
    ⟨le_refl _,fun _ => ⟨F64.le_ofRat.mpr (by norm_num),F64.le_ofRat.mpr (by norm_num)⟩⟩
  have run : Written Sample.backend (fun _ write => write.InRange) Db.fresh t := written (fun _ => trivial) (fun _ => ranged) committed
  obtain ⟨inside,scores⟩ := importance_in_range begun run
  have valid : policy.validate = .ok () := Prune.Sample.valid_of_isOk (by decide +kernel)
  have total : policy.total.is_finite = true := by decide +kernel
  exact ⟨t,beq_iff_eq.mp two,inside,(scores libm policy sound valid total Sample.engine.graph Sample.moment).2⟩

open ImportanceRange.Sample in
/-- A resolution may insert a fact with an access count of minus one. Its score is no
    number, and no score at all is written from then on. -/
theorem negative_count_unscored : ∃ t : Db, Begun Db.fresh ∧ Written Sample.backend (fun _ _ => True) Db.fresh t ∧
    (∃ f ∈ t.facts.rows, ¬ f.InRange) ∧ libm.Sound ∧ policy.validate = .ok () ∧ policy.total.is_finite = true ∧
    ∀ t', ¬ Commits (FactStore.update_importance_scores_bulk Sample.backend
      (Forget.score (Forget.compute_importance libm) Sample.engine.graph (t.activeFacts.map Fact.scoring) Sample.moment policy)) t () t' := by
  have ends : Ends (writes (-1)) Db.fresh (fun _ t => t.facts.rows.any (fun f => f.t_expired.isNone && decide (f.access_count < 0)) &&
      (Forget.score (Forget.compute_importance libm) Sample.engine.graph (t.activeFacts.map Fact.scoring) Sample.moment policy).any
        fun entry => !entry.2.is_finite) = true := by decide +kernel
  obtain ⟨_,t,committed,test⟩ := commits_of_ends ends
  obtain ⟨negative,infinite⟩ := Bool.and_eq_true_iff.mp test
  obtain ⟨f,member,found⟩ := List.any_eq_true.mp negative
  obtain ⟨active,below⟩ := Bool.and_eq_true_iff.mp found
  obtain ⟨entry,listed,overflows⟩ := List.any_eq_true.mp infinite
  refine ⟨t,begun,written (fun _ => trivial) (fun _ => trivial) committed,⟨f,member,fun ranged => ?_⟩,sound,
    Prune.Sample.valid_of_isOk (by decide +kernel),by decide +kernel,fun t' wrote => ?_⟩
  · exact absurd (ranged (Option.isNone_iff_eq_none.mp active)).1 (not_le.mpr (of_decide_eq_true below))
  · have finite := Forget.update_importance_scores_bulk_commits_iff.mp ⟨t',wrote⟩ entry listed
    rw [finite] at overflows
    cases overflows

end MemoryEngine
