import MemoryEngine.CycleOutcome

/-! The bound on a score adjustment. It is tested on the absolute value, and the smallest
sixteen-bit integer has none: a release build wraps around to the same negative number,
which passes the test, and a debug build panics. -/

namespace MemoryEngine
open Time KeyedTable Transaction

/-- How a build treats an integer operation that overflows. -/
inductive BuildMode where
  | release
  | debug
  deriving DecidableEq

/-- How a call ends that returns no result. -/
inductive Halt where
  | failed (error : MemoryError)
  | panicked

/-- A call that may also panic. Neither end leaves a change in the store. -/
abbrev Guarded (α : Type) := Tx Db Halt α

/-- A statement that cannot overflow. -/
def Guarded.plain (x : Sql α) : Guarded α := fun s =>
  match x.run s with
  | .ok outcome => .ok outcome
  | .error e => .error (.failed e)

namespace BuildMode
open Guarded
variable (mode : BuildMode) (self : SqliteBackend)

/-- `i16::abs` -/
def abs (adjustment : Int16) : Guarded Int16 :=
  match mode with
  | .release => pure adjustment.abs
  | .debug => if adjustment = Int16.minValue then throw .panicked else pure adjustment.abs

/-- Check one delta; only the bound of an adjustment can overflow. -/
def validateDelta (expired_in_report : List FactId) : CycleDelta → Guarded (List FactId)
  | .AdjustScore fact_id adjustment => do
    let size ← mode.abs adjustment
    plain (require (¬ size > MAX_ADJUSTMENT) (.Cycle (.AdjustmentOutOfRange fact_id adjustment.toInt)))
    plain (Cycle.require_active self fact_id (.UnknownFact fact_id) expired_in_report)
    return expired_in_report
  | delta => plain (Cycle.validateDelta self expired_in_report delta)

/-- Everything after the deltas are checked: the processed ids and the apply pass. -/
def applyChecked (codec : HistoryCodec) (report : CycleReport) (now : DateTime) : Sql Cycle.ApplyPass := do
  report.metadata.processed_ids.foldlM (fun _ id => do
    let _ ← Cycle.require_fact self id (.UnknownFact id)) ()
  Cycle.require_identity report
  let pass ← report.deltas.foldlM (Cycle.applyDelta self now) {}
  FactStore.mark_dream_cycled (Cycle.toMark report pass) report.metadata.cycle_id now
  Config.set_config LAST_DREAM_CYCLE_AT report.metadata.time_window.end.to_rfc3339
  Cycle.append_cycle_history codec report.metadata
  return pass

def apply_cycle_deltas_atomic (codec : HistoryCodec) (report : CycleReport) (now : DateTime) : Guarded Cycle.ApplyPass := do
  let _ ← report.deltas.foldlM (mode.validateDelta self) []
  plain (applyChecked self codec report now)

end BuildMode

namespace Guarded

theorem plain_ok {x : Sql α} {s t : Db} {a : α} (committed : Commits x s a t) : Commits (plain x) s a t := by
  have ran : x.run s = .ok (a,t) := committed
  change (plain x) s = .ok (a,t)
  rw [plain,ran]

theorem plain_failed {x : Sql α} {s : Db} {e : MemoryError} (failed : x.run s = .error e) :
    (plain x).run s = .error (.failed e) := by
  change (plain x) s = .error (.failed e)
  rw [plain,failed]

theorem plain_bind (x : Sql α) (f : α → Sql β) : plain (x >>= f) = plain x >>= fun a => plain (f a) := by
  funext s
  have left : (x >>= f).run s = (x.run s >>= fun outcome => (f outcome.1).run outcome.2) := rfl
  have right : (plain x >>= fun a => plain (f a)) s = ((plain x) s >>= fun outcome => (plain (f outcome.1)) outcome.2) := rfl
  rw [plain,left,right,plain]
  cases x.run s with
  | error e => rfl
  | ok outcome => rfl

theorem plain_foldlM {f : β → α → Sql β} (items : List α) (b : β) :
    plain (items.foldlM f b) = items.foldlM (fun b a => plain (f b a)) b := by
  induction items generalizing b with
  | nil => rfl
  | cons item rest ih =>
    rw [List.foldlM_cons,List.foldlM_cons,plain_bind]
    exact congrArg (plain (f b item) >>= ·) (funext fun middle => ih middle)

end Guarded

namespace BuildMode
open Guarded
variable {mode : BuildMode} {self : SqliteBackend}

theorem release_validateDelta : BuildMode.release.validateDelta self = fun expired delta => plain (Cycle.validateDelta self expired delta) := by
  funext expired delta
  cases delta with
  | AdjustScore fact_id adjustment =>
    have size : BuildMode.release.abs adjustment = pure adjustment.abs := rfl
    rw [Cycle.validateDelta,plain_bind,validateDelta,size,pure_bind]
    refine congrArg (plain (require (¬ adjustment.abs > MAX_ADJUSTMENT)
      (.Cycle (.AdjustmentOutOfRange fact_id adjustment.toInt))) >>= ·) (funext fun _ => ?_)
    rw [plain_bind]
    rfl
  | AddFact nf => rfl
  | Quarantine fact_id reason => rfl
  | Promote fact_id provenance => rfl
  | TagOutcome fact_id outcome => rfl
  | Supersede old_id new_id => rfl
  | Synthesize sources new_fact => rfl

/-- In a release build nothing panics, and the call is the one modelled elsewhere. -/
theorem release_apply (codec : HistoryCodec) (report : CycleReport) (now : DateTime) :
    BuildMode.release.apply_cycle_deltas_atomic self codec report now =
      plain (Cycle.apply_cycle_deltas_atomic self codec report now) := by
  have whole : Cycle.apply_cycle_deltas_atomic self codec report now =
      report.deltas.foldlM (Cycle.validateDelta self) [] >>= fun _ => applyChecked self codec report now := by
    rw [Cycle.apply_cycle_deltas_atomic,Cycle.validate_report,applyChecked,bind_assoc]
  rw [whole,plain_bind,plain_foldlM,apply_cycle_deltas_atomic,release_validateDelta]

end BuildMode

/-- What validation asks of a new fact. -/
structure NewFact.Checked (backend : SqliteBackend) (nf : NewFact) : Prop where
  sized : nf.embedding.length = backend.embed_dim
  bounded : nf.base_importance.is_finite = true ∧ (F64.ofRat 0).le nf.base_importance = true ∧ nf.base_importance.le (F64.ofRat 1) = true
  content : nf.content.utf8ByteSize ≤ MAX_PAYLOAD_BYTES
  metadata : (nf.metadata.pieces backend.float_text).sum ≤ MAX_PAYLOAD_BYTES

namespace Cycle
variable {self : SqliteBackend} {s : Db}

/-- An active fact that the report has not expired so far. -/
def Usable (self : SqliteBackend) (s : Db) (expired : List FactId) (id : FactId) : Prop := Live self s id ∧ id ∉ expired

/-- What validation asks of a delta in a store where the report has expired some facts. -/
def Passes (self : SqliteBackend) (s : Db) (expired : List FactId) : CycleDelta → Prop
  | .AddFact nf => nf.Checked self
  | .AdjustScore fact_id adjustment => ¬ adjustment.abs > MAX_ADJUSTMENT ∧ Usable self s expired fact_id
  | .Quarantine fact_id _ => Usable self s expired fact_id
  | .Promote fact_id _ => Usable self s expired fact_id
  | .TagOutcome fact_id _ => ∃ f ∈ s.facts.rows, f.id = fact_id ∧ f.Readable self.embed_dim
  | .Supersede old_id new_id => Usable self s expired old_id ∧ Usable self s expired new_id
  | .Synthesize sources nf => nf.Checked self ∧ sources ≠ [] ∧ sources.Nodup ∧ ∀ src ∈ sources, Usable self s expired src

/-- Every delta passes after those before it. -/
def PassesAll (self : SqliteBackend) (s : Db) : List FactId → List CycleDelta → Prop
  | _,[] => True
  | expired,delta :: rest => Passes self s expired delta ∧ PassesAll self s (expired ++ delta.gone) rest

theorem Passes.congr {expired expired' : List FactId} {delta : CycleDelta} (same : ∀ id, id ∈ expired ↔ id ∈ expired') :
    Passes self s expired delta ↔ Passes self s expired' delta := by
  have usable : ∀ id, Usable self s expired id ↔ Usable self s expired' id := fun id => and_congr_right fun _ => not_congr (same id)
  cases delta <;> simp only [Passes,usable]

theorem PassesAll.congr {deltas : List CycleDelta} {expired expired' : List FactId} (same : ∀ id, id ∈ expired ↔ id ∈ expired') :
    PassesAll self s expired deltas ↔ PassesAll self s expired' deltas := by
  induction deltas generalizing expired expired' with
  | nil => rfl
  | cons delta rest ih =>
    refine and_congr (Passes.congr same) (ih fun id => ?_)
    rw [List.mem_append,List.mem_append,same]

theorem validate_new_fact_iff {nf : NewFact} : Commits (validate_new_fact self nf) s () s ↔ nf.Checked self := by
  simp only [validate_new_fact,commits_bind,commits_require,commits_lift]
  constructor
  · rintro ⟨_,_,⟨sized,rfl⟩,_,_,⟨bounded,rfl⟩,_,_,⟨short,rfl⟩,small,_⟩
    exact ⟨sized,bounded,check_str_size_ok.mp short,(check_json_size_ok _ _ _).mp small⟩
  · intro checked
    exact ⟨(),s,⟨checked.sized,rfl⟩,(),s,⟨checked.bounded,rfl⟩,(),s,⟨check_str_size_ok.mpr checked.content,rfl⟩,
      (check_json_size_ok _ _ _).mpr checked.metadata,rfl⟩

theorem require_active_iff {id : FactId} {missing : CycleError} {expired : List FactId} :
    Commits (require_active self id missing expired) s () s ↔ Usable self s expired id := by
  constructor
  · intro committed
    obtain ⟨live,fresh,_⟩ := commits_require_active committed
    exact ⟨live,fresh⟩
  · rintro ⟨live,fresh⟩
    exact require_active_commits missing live fresh

theorem sources_iff {sources expired : List FactId} :
    (∃ expired', Commits (sources.foldlM (fun expired src => do
      require_active self src (.UnknownFact src) expired
      return src :: expired) expired) s expired' s) ↔ sources.Nodup ∧ ∀ src ∈ sources, Usable self s expired src := by
  constructor
  · rintro ⟨expired',committed⟩
    obtain ⟨_,distinct,lives,_⟩ := valid_sources committed
    exact ⟨distinct,lives⟩
  · induction sources generalizing expired with
    | nil => exact fun _ => ⟨expired,commits_pure.mpr ⟨rfl,rfl⟩⟩
    | cons src rest ih =>
      rintro ⟨distinct,usable⟩
      obtain ⟨apart,distinct'⟩ := List.nodup_cons.mp distinct
      obtain ⟨here,later⟩ := List.forall_mem_cons.mp usable
      have further : ∀ other ∈ rest, Usable self s (src :: expired) other := by
        intro other listed
        refine ⟨(later other listed).1,fun again => ?_⟩
        rcases List.mem_cons.mp again with rfl | early
        · exact apart listed
        · exact (later other listed).2 early
      obtain ⟨expired',loop⟩ := ih ⟨distinct',further⟩
      refine ⟨expired',?_⟩
      rw [List.foldlM_cons]
      exact commits_bind.mpr ⟨src :: expired,s,commits_bind.mpr ⟨(),s,require_active_iff.mpr here,commits_pure.mpr ⟨rfl,rfl⟩⟩,loop⟩

theorem returns_iff {x : Sql Unit} {b : β} : (∃ b', Commits (x >>= fun _ => pure b) s b' s) ↔ Commits x s () s := by
  constructor
  · rintro ⟨b',committed⟩
    obtain ⟨_,m,ran,last⟩ := commits_bind.mp committed
    obtain ⟨_,rfl⟩ := commits_pure.mp last
    exact ran
  · exact fun ran => ⟨b,commits_bind.mpr ⟨(),s,ran,commits_pure.mpr ⟨rfl,rfl⟩⟩⟩

/-- Validation of one delta succeeds exactly when it passes. -/
theorem passes_iff {delta : CycleDelta} {expired : List FactId} :
    (∃ expired', Commits (validateDelta self expired delta) s expired' s) ↔ Passes self s expired delta := by
  cases delta with
  | AddFact nf => exact returns_iff.trans validate_new_fact_iff
  | AdjustScore fact_id adjustment =>
    constructor
    · rintro ⟨expired',committed⟩
      obtain ⟨_,_,bounded,rest⟩ := commits_bind.mp committed
      obtain ⟨small,rfl⟩ := commits_require.mp bounded
      exact ⟨small,require_active_iff.mp (returns_iff.mp ⟨expired',rest⟩)⟩
    · rintro ⟨small,usable⟩
      obtain ⟨expired',rest⟩ := returns_iff.mpr (require_active_iff.mpr usable)
      exact ⟨expired',commits_bind.mpr ⟨(),s,commits_require.mpr ⟨small,rfl⟩,rest⟩⟩
  | Quarantine fact_id reason => exact returns_iff.trans require_active_iff
  | Promote fact_id provenance => exact returns_iff.trans require_active_iff
  | TagOutcome fact_id outcome =>
    constructor
    · rintro ⟨expired',committed⟩
      obtain ⟨f,_,found,_⟩ := commits_bind.mp committed
      obtain ⟨stored,readable,_⟩ := commits_require_fact.mp found
      obtain ⟨member,same⟩ := Table.find_eq_some.mp stored
      exact ⟨f,member,same,readable⟩
    · rintro ⟨f,member,same,readable⟩
      refine ⟨expired,commits_bind.mpr ⟨f,s,?_,commits_pure.mpr ⟨rfl,rfl⟩⟩⟩
      exact commits_require_fact.mpr ⟨Table.find_eq_some.mpr ⟨member,same⟩,readable,rfl⟩
  | Supersede old_id new_id =>
    constructor
    · rintro ⟨expired',committed⟩
      obtain ⟨_,_,old,rest⟩ := commits_bind.mp committed
      obtain ⟨live,fresh,rfl⟩ := commits_require_active old
      exact ⟨⟨live,fresh⟩,require_active_iff.mp (returns_iff.mp ⟨expired',rest⟩)⟩
    · rintro ⟨old,new⟩
      obtain ⟨expired',rest⟩ := returns_iff.mpr (require_active_iff.mpr new)
      exact ⟨expired',commits_bind.mpr ⟨(),s,require_active_iff.mpr old,rest⟩⟩
  | Synthesize sources new_fact =>
    constructor
    · rintro ⟨expired',committed⟩
      obtain ⟨_,_,checked,rest⟩ := commits_bind.mp committed
      obtain rfl := of_commits_validate_new_fact checked
      obtain ⟨_,_,nonempty,loop⟩ := commits_bind.mp rest
      obtain ⟨some_,rfl⟩ := commits_require.mp nonempty
      exact ⟨validate_new_fact_iff.mp checked,some_,sources_iff.mp ⟨expired',loop⟩⟩
    · rintro ⟨checked,some_,sound⟩
      obtain ⟨expired',loop⟩ := sources_iff.mpr sound
      refine ⟨expired',commits_bind.mpr ⟨(),s,validate_new_fact_iff.mpr checked,?_⟩⟩
      exact commits_bind.mpr ⟨(),s,commits_require.mpr ⟨some_,rfl⟩,loop⟩

/-- Every delta of a report that validates passes behind some expiries. -/
theorem passes_of_mem {t : Db} {expired expired' : List FactId} {deltas : List CycleDelta}
    (validated : Commits (deltas.foldlM (validateDelta self) expired) s expired' t) : ∀ delta ∈ deltas, ∃ before, Passes self s before delta := by
  induction deltas generalizing expired with
  | nil => simp
  | cons delta rest ih =>
    rw [List.foldlM_cons] at validated
    obtain ⟨middle,_,checked,later⟩ := commits_bind.mp validated
    obtain ⟨rfl,_,_⟩ := valid_delta checked
    exact List.forall_mem_cons.mpr ⟨⟨expired,passes_iff.mp ⟨middle,checked⟩⟩,ih later⟩

/-- The new facts of an applied report are checked. -/
theorem checked_of_report {codec : HistoryCodec} {report : CycleReport} {now : DateTime} {t : Db} {pass : ApplyPass}
    (committed : Commits (apply_cycle_deltas_atomic self codec report now) s pass t) :
    ∀ delta ∈ report.deltas, ∀ nf ∈ delta.newFact, nf.Checked self := by
  obtain ⟨_,_,_,validated,_⟩ := commits_report.mp committed
  obtain ⟨⟨expired,checked⟩,_⟩ := valid_report validated
  intro delta listed nf brought
  obtain ⟨before,passes⟩ := passes_of_mem checked delta listed
  cases delta with
  | AddFact new_fact =>
    cases brought
    exact passes
  | Synthesize sources new_fact =>
    cases brought
    exact passes.1
  | _ => cases brought

end Cycle

/-- The report moves a score by more than it may. -/
def CycleReport.Excessive (report : CycleReport) : Prop :=
  ∃ fact_id adjustment, CycleDelta.AdjustScore fact_id adjustment ∈ report.deltas ∧ (adjustment.toInt > 2 ∨ adjustment.toInt < -2)

/-- Validation comes as far as an adjustment by the smallest sixteen-bit integer. -/
def CycleReport.ReachesSmallest (self : SqliteBackend) (s : Db) (report : CycleReport) : Prop :=
  ∃ before fact_id after, report.deltas = before ++ .AdjustScore fact_id Int16.minValue :: after ∧ Cycle.PassesAll self s [] before

namespace BuildMode
open Guarded

/-- The call fails with an error, which leaves the store as it was. -/
def Rejects (mode : BuildMode) (self : SqliteBackend) (codec : HistoryCodec) (report : CycleReport) (now : DateTime) (s : Db) : Prop :=
  ∃ e, (mode.apply_cycle_deltas_atomic self codec report now).run s = .error (.failed e)

variable {mode : BuildMode} {self : SqliteBackend} {s : Db} {expired : List FactId}

/-- An adjustment beyond the bound passes the test on its absolute value only if it is the smallest integer. -/
theorem smallest_of_small {adjustment : Int16} (beyond : adjustment.toInt > 2 ∨ adjustment.toInt < -2)
    (small : ¬ adjustment.abs > MAX_ADJUSTMENT) : adjustment = Int16.minValue := by
  by_contra other
  have apart : adjustment.toBitVec ≠ BitVec.intMin 16 := fun same => other (Int16.toBitVec.inj same)
  have size : adjustment.abs.toInt = adjustment.toInt.natAbs := BitVec.toInt_abs_eq_natAbs_of_ne_intMin apart
  have bounded : ¬ (MAX_ADJUSTMENT.toInt < adjustment.abs.toInt) := fun above => small (Int16.lt_iff_toInt_lt.mpr above)
  have two : MAX_ADJUSTMENT.toInt = 2 := rfl
  omega

/-- Both builds check a delta alike that is no adjustment by the smallest integer. -/
theorem validateDelta_plain {delta : CycleDelta} (regular : ∀ fact_id, delta ≠ .AdjustScore fact_id Int16.minValue) :
    mode.validateDelta self expired delta = plain (Cycle.validateDelta self expired delta) := by
  have released : BuildMode.release.validateDelta self expired delta = plain (Cycle.validateDelta self expired delta) := by
    rw [release_validateDelta]
  cases mode with
  | release => exact released
  | debug =>
    rw [← released]
    cases delta with
    | AdjustScore fact_id adjustment =>
      have apart : adjustment ≠ Int16.minValue := fun smallest => regular fact_id (by rw [smallest])
      have size : BuildMode.debug.abs adjustment = BuildMode.release.abs adjustment := if_neg apart
      rw [validateDelta,validateDelta,size]
    | _ => rfl

theorem validates_of_passes (mode : BuildMode) {delta : CycleDelta} (regular : ∀ fact_id, delta ≠ .AdjustScore fact_id Int16.minValue)
    (passes : Cycle.Passes self s expired delta) :
    ∃ expired', Commits (mode.validateDelta self expired delta) s expired' s ∧ ∀ id, id ∈ expired' ↔ id ∈ expired ++ delta.gone := by
  obtain ⟨expired',committed⟩ := Cycle.passes_iff.mpr passes
  obtain ⟨_,_,grown⟩ := Cycle.valid_delta committed
  refine ⟨expired',?_,fun id => by rw [grown,List.mem_append]⟩
  rw [validateDelta_plain regular]
  exact plain_ok committed

theorem rejects_of_not_passes (mode : BuildMode) {delta : CycleDelta} (regular : ∀ fact_id, delta ≠ .AdjustScore fact_id Int16.minValue)
    (fails : ¬ Cycle.Passes self s expired delta) : ∃ e, (mode.validateDelta self expired delta).run s = .error (.failed e) := by
  rw [validateDelta_plain regular]
  cases ran : (Cycle.validateDelta self expired delta).run s with
  | error e => exact ⟨e,plain_failed ran⟩
  | ok outcome =>
    obtain ⟨expired',t⟩ := outcome
    obtain ⟨rfl,_⟩ := Cycle.valid_delta ran
    exact absurd (Cycle.passes_iff.mp ⟨expired',ran⟩) fails

/-- The checks stop with an error at the latest at the excessive adjustment, unless they
    come to an adjustment by the smallest integer first. -/
theorem rejects_deltas (mode : BuildMode) (self : SqliteBackend) (expired : List FactId) {deltas : List CycleDelta}
    (excessive : ∃ fact_id adjustment, CycleDelta.AdjustScore fact_id adjustment ∈ deltas ∧ (adjustment.toInt > 2 ∨ adjustment.toInt < -2))
    (short : ∀ before fact_id after, deltas = before ++ .AdjustScore fact_id Int16.minValue :: after → ¬ Cycle.PassesAll self s expired before) :
    ∃ e, (deltas.foldlM (mode.validateDelta self) expired).run s = .error (.failed e) := by
  induction deltas generalizing expired with
  | nil =>
    obtain ⟨_,_,member,_⟩ := excessive
    cases member
  | cons delta rest ih =>
    have regular : ∀ fact_id, delta ≠ .AdjustScore fact_id Int16.minValue :=
      fun fact_id same => short [] fact_id rest (by rw [same,List.nil_append]) trivial
    rw [List.foldlM_cons,StateT.run_bind]
    by_cases passes : Cycle.Passes self s expired delta
    · obtain ⟨expired',committed,grown⟩ := validates_of_passes mode regular passes
      have ran : (mode.validateDelta self expired delta).run s = .ok (expired',s) := committed
      have later : ∃ fact_id adjustment, CycleDelta.AdjustScore fact_id adjustment ∈ rest ∧
          (adjustment.toInt > 2 ∨ adjustment.toInt < -2) := by
        obtain ⟨fact_id,adjustment,member,beyond⟩ := excessive
        rcases List.mem_cons.mp member with rfl | tail
        · exact absurd (by rw [smallest_of_small beyond passes.1]) (regular fact_id)
        · exact ⟨fact_id,adjustment,tail,beyond⟩
      rw [ran]
      refine ih _ later fun before fact_id after split all => ?_
      refine short (delta :: before) fact_id after (by rw [split,List.cons_append]) ⟨passes,?_⟩
      exact (Cycle.PassesAll.congr grown).mp all
    · obtain ⟨e,ran⟩ := rejects_of_not_passes mode regular passes
      rw [ran]
      exact ⟨e,rfl⟩

theorem panics_smallest (fact_id : FactId) :
    (BuildMode.debug.validateDelta self expired (.AdjustScore fact_id Int16.minValue)).run s = .error .panicked := rfl

/-- A debug build that comes to an adjustment by the smallest integer panics. -/
theorem panics_deltas {before : List CycleDelta} (fact_id : FactId) (after : List CycleDelta) (all : Cycle.PassesAll self s expired before) :
    ((before ++ .AdjustScore fact_id Int16.minValue :: after).foldlM (BuildMode.debug.validateDelta self) expired).run s = .error .panicked := by
  induction before generalizing expired with
  | nil =>
    rw [List.nil_append,List.foldlM_cons,StateT.run_bind,panics_smallest]
    rfl
  | cons delta rest ih =>
    rw [List.cons_append,List.foldlM_cons,StateT.run_bind]
    by_cases regular : ∀ fact_id, delta ≠ .AdjustScore fact_id Int16.minValue
    · obtain ⟨expired',committed,grown⟩ := validates_of_passes .debug regular all.1
      have ran : (BuildMode.debug.validateDelta self expired delta).run s = .ok (expired',s) := committed
      rw [ran]
      exact ih ((Cycle.PassesAll.congr grown).mpr all.2)
    · -- An earlier adjustment by the smallest integer stops the checks already.
      obtain ⟨other,same⟩ := not_forall_not.mp regular
      rw [same,panics_smallest]
      rfl

end BuildMode

/-- A report with an adjustment beyond the bound is rejected in both builds exactly when
    validation does not come as far as an adjustment by the smallest integer. -/
theorem excessive_rejected_iff {self : SqliteBackend} {codec : HistoryCodec} {report : CycleReport} {now : Time.DateTime} {s : Db}
    (excessive : report.Excessive) :
    (∀ mode : BuildMode, mode.Rejects self codec report now s) ↔ ¬ report.ReachesSmallest self s := by
  constructor
  · rintro rejects ⟨before,fact_id,after,split,all⟩
    obtain ⟨e,failed⟩ := rejects .debug
    have panics := BuildMode.panics_deltas fact_id after all
    rw [BuildMode.apply_cycle_deltas_atomic,StateT.run_bind,split,panics] at failed
    cases failed
  · intro short mode
    obtain ⟨e,failed⟩ := BuildMode.rejects_deltas mode self [] excessive
      fun before fact_id after split all => short ⟨before,fact_id,after,split,all⟩
    refine ⟨e,?_⟩
    rw [BuildMode.apply_cycle_deltas_atomic,StateT.run_bind,failed]
    rfl

theorem excessive_rejected_sample :
    (∀ mode : BuildMode, mode.Rejects Sample.backend Cycle.sampleCodec (Cycle.sampleReport [.AdjustScore 1 (-3)]) Sample.moment Sample.identified) ↔
      ¬ (Cycle.sampleReport [.AdjustScore 1 (-3)]).ReachesSmallest Sample.backend Sample.identified :=
  excessive_rejected_iff ⟨1,-3,List.mem_cons_self,.inr (by decide)⟩

/-- An adjustment by the smallest integer is applied in a release build and panics in a
    debug build. -/
theorem smallest_adjustment_passes : ¬ ∃ mode : BuildMode, ∀ (self : SqliteBackend) (codec : HistoryCodec) (report : CycleReport)
    (now : Time.DateTime) (s : Db), report.Excessive → mode.Rejects self codec report now s := by
  rintro ⟨mode,claim⟩
  have excessive : (Cycle.sampleReport [.AdjustScore 1 Int16.minValue]).Excessive := ⟨1,Int16.minValue,List.mem_cons_self,.inr (by decide)⟩
  obtain ⟨e,failed⟩ := claim Sample.backend Cycle.sampleCodec _ Sample.moment Sample.identified excessive
  cases mode with
  | release =>
    have ends : Ends (Sample.applied [.AdjustScore 1 Int16.minValue]) Sample.identified (fun pass _ => pass.result.scores_adjusted == 1) = true := by
      decide +kernel
    obtain ⟨pass,t,committed,_⟩ := commits_of_ends ends
    have ran := Guarded.plain_ok committed
    rw [BuildMode.release_apply] at failed
    rw [Commits,Sample.applied,failed] at ran
    cases ran
  | debug => cases failed

end MemoryEngine
