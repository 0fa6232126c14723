import MemoryEngine.CycleRepeat

/-! The facts a report touches, and the others. An active fact without the marker is left
as it was unless the report processes it, expires it or names it as a successor; and no
other active fact is without the marker afterwards. -/

namespace MemoryEngine
open Time KeyedTable Transaction

/-- The facts that supersede others. -/
def CycleDelta.successors : CycleDelta → List FactId
  | .Supersede _ new_id => [new_id]
  | _ => []

/-- The facts that are processed, expired or named as successors. -/
def CycleReport.touched (report : CycleReport) : List FactId :=
  report.metadata.processed_ids ++ report.deltas.flatMap CycleDelta.gone ++ report.deltas.flatMap CycleDelta.successors

/-- An active fact that no cycle has marked. -/
def Fact.Undreamt (f : Fact) : Prop := f.t_expired = none ∧ f.metadata.hasKey "dream_cycle" = false

instance (f : Fact) : Decidable f.Undreamt := inferInstanceAs (Decidable (_ ∧ _))

namespace Cycle
variable {self : SqliteBackend}

/-- The pass notes the facts that a delta expires. -/
theorem expired_sources {now : DateTime} {synth_id scope_id : Int} {sources : List FactId} {acc acc' : ApplyPass × Option (DateTime × DateTime)}
    {s t : Db} (committed : Commits (sources.foldlM (synthesizeSource self now synth_id scope_id) acc) s acc' t) :
    acc'.1.expired_ids = acc.1.expired_ids ++ sources := by
  induction sources generalizing acc s with
  | nil =>
    obtain ⟨rfl,rfl⟩ := commits_pure.mp committed
    rw [List.append_nil]
  | cons src rest ih =>
    rw [List.foldlM_cons] at committed
    obtain ⟨next,m,first,tail⟩ := commits_bind.mp committed
    obtain ⟨_,_,_,superseding⟩ := commits_bind.mp first
    obtain ⟨pass,_,superseded,last⟩ := commits_bind.mp superseding
    obtain ⟨rfl,rfl⟩ := commits_pure.mp last
    obtain ⟨_,_,_,linking⟩ := commits_bind.mp superseded
    obtain ⟨_,_,_,closed⟩ := commits_bind.mp linking
    rw [ih tail,(commits_pure.mp closed).1,List.append_assoc,List.singleton_append]

theorem expired_delta {now : DateTime} {delta : CycleDelta} {pass pass' : ApplyPass} {s t : Db}
    (committed : Commits (applyDelta self now pass delta) s pass' t) : pass'.expired_ids = pass.expired_ids ++ delta.gone := by
  cases delta with
  | AddFact nf =>
    obtain ⟨_,_,_,last⟩ := commits_bind.mp committed
    obtain ⟨rfl,_⟩ := commits_pure.mp last
    exact (List.append_nil _).symm
  | AdjustScore fact_id adjustment =>
    obtain ⟨_,_,_,rest⟩ := commits_bind.mp committed
    obtain ⟨_,_,_,last⟩ := commits_bind.mp rest
    obtain ⟨rfl,_⟩ := commits_pure.mp last
    exact (List.append_nil _).symm
  | Quarantine fact_id reason =>
    obtain ⟨_,_,_,rest⟩ := commits_bind.mp committed
    obtain ⟨_,_,_,last⟩ := commits_bind.mp rest
    obtain ⟨rfl,_⟩ := commits_pure.mp last
    rfl
  | Promote fact_id provenance =>
    obtain ⟨_,_,_,checking⟩ := commits_bind.mp committed
    obtain ⟨_,_,_,guarding⟩ := commits_bind.mp checking
    obtain ⟨_,_,_,inserting⟩ := commits_bind.mp guarding
    obtain ⟨_,_,_,recording⟩ := commits_bind.mp inserting
    obtain ⟨_,_,_,last⟩ := commits_bind.mp recording
    obtain ⟨rfl,_⟩ := commits_pure.mp last
    exact (List.append_nil _).symm
  | TagOutcome fact_id outcome =>
    obtain ⟨_,_,_,last⟩ := commits_bind.mp committed
    obtain ⟨rfl,_⟩ := commits_pure.mp last
    exact (List.append_nil _).symm
  | Supersede old_id new_id =>
    obtain ⟨_,_,_,rest⟩ := commits_bind.mp committed
    obtain ⟨next,_,superseded,last⟩ := commits_bind.mp rest
    obtain ⟨rfl,_⟩ := commits_pure.mp last
    obtain ⟨_,_,_,linking⟩ := commits_bind.mp superseded
    obtain ⟨_,_,_,closed⟩ := commits_bind.mp linking
    obtain ⟨rfl,_⟩ := commits_pure.mp closed
    rfl
  | Synthesize sources new_fact =>
    obtain ⟨_,_,_,rest⟩ := commits_bind.mp committed
    obtain ⟨⟨next,_⟩,_,superseded,rest⟩ := commits_bind.mp rest
    obtain ⟨_,_,_,last⟩ := commits_bind.mp rest
    obtain ⟨rfl,_⟩ := commits_pure.mp last
    exact expired_sources superseded

theorem expired_deltas {now : DateTime} {deltas : List CycleDelta} {pass pass' : ApplyPass} {s t : Db}
    (committed : Commits (deltas.foldlM (applyDelta self now) pass) s pass' t) :
    pass'.expired_ids = pass.expired_ids ++ deltas.flatMap CycleDelta.gone := by
  induction deltas generalizing pass s with
  | nil =>
    obtain ⟨rfl,_⟩ := commits_pure.mp committed
    exact (List.append_nil _).symm
  | cons delta rest ih =>
    rw [List.foldlM_cons] at committed
    obtain ⟨next,m,first,tail⟩ := commits_bind.mp committed
    rw [ih tail,expired_delta first,List.append_assoc,List.flatMap_cons]

/-- What the deltas expire is no longer active after the pass. -/
theorem inactive_gone {now : DateTime} {deltas : List CycleDelta} {pass : ApplyPass} {s m : Db}
    (applied : Commits (deltas.foldlM (applyDelta self now) {}) s pass m) {id : FactId} (listed : id ∈ deltas.flatMap CycleDelta.gone) :
    ¬ m.IsActive id := by
  obtain ⟨gone,noted,cold⟩ := (accounts_deltas applied).expired
  have same := expired_deltas applied
  rw [noted,List.append_cancel_left_eq] at same
  exact (cold id (by rw [same]; exact listed)).2

/-- Validation follows exactly what the deltas expire. -/
theorem validated_gone {deltas : List CycleDelta} {expired expired' : List FactId} {s t : Db}
    (validated : Commits (deltas.foldlM (validateDelta self) expired) s expired' t) {id : FactId} :
    id ∈ expired' ↔ id ∈ expired ∨ id ∈ deltas.flatMap CycleDelta.gone := by
  induction deltas generalizing expired s with
  | nil =>
    obtain ⟨rfl,_⟩ := commits_pure.mp validated
    simp
  | cons delta rest ih =>
    rw [List.foldlM_cons] at validated
    obtain ⟨middle,m,first,later⟩ := commits_bind.mp validated
    obtain ⟨_,_,grown⟩ := valid_delta first
    rw [ih later,grown,List.flatMap_cons,List.mem_append,or_assoc]

/-- Marking does not touch the rows that it does not list. -/
theorem mark_spares {ids : List FactId} {cycle_id : Nat} {now : DateTime} {s t : Db} {u : Unit}
    (committed : Commits (FactStore.mark_dream_cycled ids cycle_id now) s u t) {f : Fact} (away : f.id ∉ ids) (member : f ∈ s.facts.rows) :
    f ∈ t.facts.rows := by
  induction ids generalizing s with
  | nil =>
    obtain ⟨_,rfl⟩ := commits_pure.mp committed
    exact member
  | cons id rest ih =>
    rw [FactStore.mark_dream_cycled,List.foldlM_cons] at committed
    obtain ⟨_,m,merged,later⟩ := commits_bind.mp committed
    obtain ⟨apart,others⟩ := not_or.mp (mt List.mem_cons.mpr away)
    refine ih later others ?_
    rw [(FactStore.commits_merge_metadata.mp merged).2,Tables.updateFact,Table.mem_update]
    refine ⟨f,member,?_⟩
    rw [if_neg (by simpa using apart)]

theorem mem_successor_ids {deltas : List CycleDelta} {id : FactId} :
    id ∈ deltas.flatMap CycleDelta.successors ↔ ∃ old, CycleDelta.Supersede old id ∈ deltas := by
  rw [List.mem_flatMap]
  constructor
  · rintro ⟨delta,listed,named⟩
    cases delta with
    | Supersede old_id new_id =>
      rw [CycleDelta.successors,List.mem_singleton] at named
      exact ⟨old_id,by rw [named]; exact listed⟩
    | _ => cases named
  · rintro ⟨old,listed⟩
    exact ⟨_,listed,List.mem_singleton_self _⟩

/-- The pass as far as facts of before are concerned. -/
theorem untouched_deltas {report : CycleReport} {now : DateTime} {s m : Db} {pass : ApplyPass} (validated : Commits (validate_report self report) s () s)
    (applied : Commits (report.deltas.foldlM (applyDelta self now) {}) s pass m) {f : Fact} (member : f ∈ s.facts.rows)
    (away : f.id ∉ report.deltas.flatMap CycleDelta.gone) : ∃ g ∈ m.facts.rows, g = { f with base_importance := g.base_importance } := by
  obtain ⟨⟨expired,checked⟩,_⟩ := valid_report validated
  obtain ⟨_,gone,fresh,tags,behind,_⟩ := behind_deltas (Behind.start s) checked applied
  obtain ⟨g,held,keeps⟩ := behind.evolved.kept f member
  refine ⟨g,held,keeps.untouched fun listed => away ?_⟩
  exact ((validated_gone checked).mp (behind.noted _ listed)).resolve_left List.not_mem_nil

/-- A fact of before is marked only if it is processed or named as a successor. -/
theorem not_mem_toMark {report : CycleReport} {now : DateTime} {s m : Db} {pass : ApplyPass} (validated : Commits (validate_report self report) s () s)
    (applied : Commits (report.deltas.foldlM (applyDelta self now) {}) s pass m) {f : Fact} (member : f ∈ s.facts.rows)
    (processed : f.id ∉ report.metadata.processed_ids) (successor : f.id ∉ report.deltas.flatMap CycleDelta.successors) : f.id ∉ toMark report pass := by
  obtain ⟨⟨expired,checked⟩,_⟩ := valid_report validated
  obtain ⟨_,gone,fresh,tags,behind,noted⟩ := behind_deltas (Behind.start s) checked applied
  rw [List.nil_append] at behind
  intro listed
  rcases mem_toMark.mp listed with seen | created | named
  · exact processed seen
  · rcases (noted.created _).mp created with none_ | new
    · cases none_
    · obtain ⟨entry,there,same⟩ := List.mem_map.mp new
      have late := (behind.evolved.made entry there).1
      rw [same] at late
      exact absurd (s.facts.allocated f member) (not_le.mpr late)
  · rcases (noted.successors _).mp named with none_ | old
    · cases none_
    · exact successor (mem_successor_ids.mpr old)

/-- The undreamt facts after a report are the undreamt facts of before that it does not
    touch, but for their importance. -/
theorem undreamt_report {codec : HistoryCodec} {report : CycleReport} {now : DateTime} {s t : Db} {pass : ApplyPass}
    (committed : Commits (apply_cycle_deltas_atomic self codec report now) s pass t) :
    (∀ g ∈ t.facts.rows, g.Undreamt → ∃ f ∈ s.facts.rows, f.Undreamt ∧ f.id ∉ report.touched ∧ g = { f with base_importance := g.base_importance }) ∧
      ∀ f ∈ s.facts.rows, f.Undreamt → f.id ∉ report.touched → ∃ g ∈ t.facts.rows, g = { f with base_importance := g.base_importance } := by
  obtain ⟨m,m',m'',validated,_,applied,marked,dated,appended⟩ := commits_report.mp committed
  obtain ⟨⟨expired,checked⟩,_⟩ := valid_report validated
  obtain ⟨_,gone,fresh,tags,behind,noted⟩ := behind_deltas (Behind.start s) checked applied
  rw [List.nil_append] at behind
  have facts : t.facts = m'.facts := by
    rw [leaves_append_cycle_history _ _ m'' () t appended,commits_execute.mp dated]
  rw [facts]
  constructor
  · intro g there undreamt
    obtain ⟨g₀,held,marks⟩ := marked_rows marked g there
    have spared : g₀.id ∉ toMark report pass := by
      intro listed
      have stamped := marks.set listed
      rw [undreamt.2] at stamped
      cases stamped
    obtain rfl : g = g₀ := m'.facts.key_unique there (mark_spares marked spared held) marks.id
    have old : s.facts.Has g.id :=
      (behind.evolved.only g held).resolve_right fun new => spared (mem_toMark.mpr (.inr (.inl ((noted.created _).mpr (.inr new)))))
    obtain ⟨f,member,same⟩ := old
    have away : f.id ∉ report.deltas.flatMap CycleDelta.gone := by
      rw [show f.id = g.id from same]
      exact fun listed => inactive_gone applied listed ⟨g,held,rfl,undreamt.1⟩
    obtain ⟨h,kept,shape⟩ := untouched_deltas validated applied member away
    obtain rfl : h = g := m.facts.key_unique kept held ((congrArg Fact.id shape).trans same)
    refine ⟨f,member,⟨(congrArg Fact.t_expired shape).symm.trans undreamt.1,?_⟩,?_,shape⟩
    · rw [← undreamt.2,shape]
    · rw [show f.id = h.id from same,CycleReport.touched,List.mem_append,List.mem_append]
      rintro ((processed | expired) | successor)
      · exact spared (mem_toMark.mpr (.inl processed))
      · exact inactive_gone applied expired ⟨h,held,rfl,undreamt.1⟩
      · exact spared (mem_toMark.mpr (.inr (.inr ((noted.successors _).mpr (.inr (mem_successor_ids.mp successor))))))
  · intro f member undreamt away
    rw [CycleReport.touched,List.mem_append,List.mem_append,not_or,not_or] at away
    obtain ⟨⟨processed,expired⟩,successor⟩ := away
    obtain ⟨g,held,shape⟩ := untouched_deltas validated applied member expired
    have same : g.id = f.id := (congrArg Fact.id shape).trans rfl
    refine ⟨g,mark_spares marked ?_ held,shape⟩
    rw [same]
    exact not_mem_toMark validated applied member processed successor

end Cycle
end MemoryEngine
