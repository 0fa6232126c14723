import MemoryEngine.CycleAccept

/-! What becomes of an accepted report: when the pass after validation commits,
what takes the place of a superseded fact, and which rows count as written by a
caller afterwards. -/

namespace MemoryEngine
open Time KeyedTable Transaction

/-- What the pass wrote down about a list of deltas. -/
structure Cycle.NotedAll (deltas : List CycleDelta) (fresh : List (FactId × Json)) (pass pass' : Cycle.ApplyPass) : Prop where
  created : ∀ id, id ∈ pass'.created ↔ id ∈ pass.created ∨ id ∈ fresh.map Prod.fst
  parses : (∀ entry ∈ fresh, entry.2.Parses) ↔ ∀ delta ∈ deltas, ∀ nf ∈ delta.newFact, nf.metadata.Parses
  successors : ∀ id, id ∈ pass'.supersede_new_ids ↔ id ∈ pass.supersede_new_ids ∨ ∃ old, CycleDelta.Supersede old id ∈ deltas

namespace Cycle
variable {self : SqliteBackend}

theorem mem_successors {delta : CycleDelta} {id : FactId} :
    id ∈ delta.supersessions.filterMap Prod.fst ↔ ∃ old, delta = .Supersede old id := by
  cases delta with
  | Supersede old_id new_id =>
    simp only [CycleDelta.supersessions,List.filterMap_cons,List.filterMap_nil,List.mem_singleton,CycleDelta.Supersede.injEq]
    constructor
    · exact fun same => ⟨old_id,rfl,same.symm⟩
    · rintro ⟨_,_,same⟩
      exact same.symm
  | Synthesize sources nf => simp [CycleDelta.supersessions]
  | _ => simp [CycleDelta.supersessions]

theorem NotedAll.nil (pass : ApplyPass) : NotedAll [] [] pass pass where
  created := by simp
  parses := by simp
  successors := by simp

theorem NotedAll.cons {delta : CycleDelta} {rest : List CycleDelta} {fresh fresh' : List (FactId × Json)} {pass middle pass' : ApplyPass}
    (first : Noted delta fresh pass middle) (later : NotedAll rest fresh' middle pass') :
    NotedAll (delta :: rest) (fresh ++ fresh') pass pass' where
  created := by
    intro id
    rw [later.created,first.created,List.map_append,List.mem_append,or_assoc]
  parses := by
    rw [List.forall_mem_append,List.forall_mem_cons,first.parses,later.parses]
  successors := by
    intro id
    rw [later.successors,first.successors,List.mem_append,mem_successors,or_assoc]
    refine or_congr_right ?_
    simp only [List.mem_cons,exists_or]
    exact or_congr_left (exists_congr fun old => eq_comm)

/-- Validation looked at every delta. -/
theorem valid_of_mem {db db' : Db} {expired expired' : List FactId} {deltas : List CycleDelta}
    (validated : Commits (deltas.foldlM (validateDelta self) expired) db expired' db') :
    ∀ delta ∈ deltas, ∃ before, Valid self db before delta := by
  induction deltas generalizing expired with
  | nil => simp
  | cons delta rest ih =>
    rw [List.foldlM_cons] at validated
    obtain ⟨_,_,checked,later⟩ := commits_bind.mp validated
    obtain ⟨rfl,valid,_⟩ := valid_delta checked
    exact List.forall_mem_cons.mpr ⟨⟨expired,valid⟩,ih later⟩

/-- Validated deltas that were applied leave what validation of the rest relies on. -/
theorem behind_deltas {db db' m t : Db} {expired expired' gone : List FactId} {fresh : List (FactId × Json)} {tags : Nat} {now : DateTime}
    {deltas : List CycleDelta} {pass pass' : ApplyPass} (behind : Behind db m expired gone fresh tags)
    (validated : Commits (deltas.foldlM (validateDelta self) expired) db expired' db')
    (committed : Commits (deltas.foldlM (applyDelta self now) pass) m pass' t) :
    db' = db ∧ ∃ gone' fresh' tags', Behind db t expired' gone' (fresh ++ fresh') tags' ∧ NotedAll deltas fresh' pass pass' := by
  induction deltas generalizing m expired gone fresh tags pass with
  | nil =>
    obtain ⟨rfl,rfl⟩ := commits_pure.mp validated
    obtain ⟨rfl,rfl⟩ := commits_pure.mp committed
    exact ⟨rfl,gone,[],tags,by rwa [List.append_nil],NotedAll.nil _⟩
  | cons delta rest ih =>
    rw [List.foldlM_cons] at validated committed
    obtain ⟨_,_,checked,laterChecks⟩ := commits_bind.mp validated
    obtain ⟨_,_,applied,laterPass⟩ := commits_bind.mp committed
    obtain ⟨rfl,valid,grown⟩ := valid_delta checked
    obtain ⟨fresh₁,evolved,noted⟩ := evolved_delta behind.evolved.seq valid.gone_le applied
    obtain ⟨same,gone',fresh₂,tags',after,notes⟩ := ih (behind.step evolved grown) laterChecks laterPass
    exact ⟨same,gone',fresh₁ ++ fresh₂,tags',by rwa [← List.append_assoc],NotedAll.cons noted notes⟩

/-- Validated deltas are applied exactly when their rows can be stored. -/
theorem commits_deltas_iff {db db' m : Db} {expired expired' gone : List FactId} {fresh : List (FactId × Json)} {tags : Nat}
    {deltas : List CycleDelta} (now : DateTime) (pass : ApplyPass) (identity : db.activeSpace ≠ none) (behind : Behind db m expired gone fresh tags)
    (validated : Commits (deltas.foldlM (validateDelta self) expired) db expired' db') :
    (∃ pass' t, Commits (deltas.foldlM (applyDelta self now) pass) m pass' t) ↔ StorableAll db.toTables tags deltas := by
  induction deltas generalizing m expired gone fresh tags pass with
  | nil => exact iff_of_true ⟨pass,m,commits_pure.mpr ⟨rfl,rfl⟩⟩ trivial
  | cons delta rest ih =>
    rw [List.foldlM_cons] at validated
    obtain ⟨_,_,checked,later⟩ := commits_bind.mp validated
    obtain ⟨rfl,valid,grown⟩ := valid_delta checked
    have one := commits_delta_iff now pass identity behind valid
    rw [StorableAll]
    constructor
    · rintro ⟨pass',t,committed⟩
      rw [List.foldlM_cons] at committed
      obtain ⟨middle,m',applied,tail⟩ := commits_bind.mp committed
      obtain ⟨_,evolved,_⟩ := evolved_delta behind.evolved.seq valid.gone_le applied
      exact ⟨one.mp ⟨middle,m',applied⟩,(ih middle (behind.step evolved grown) later).mp ⟨pass',t,tail⟩⟩
    · rintro ⟨here,others⟩
      obtain ⟨middle,m',applied⟩ := one.mpr here
      obtain ⟨_,evolved,_⟩ := evolved_delta behind.evolved.seq valid.gone_le applied
      have others' : ∃ pass' t, Commits (rest.foldlM (applyDelta self now) middle) m' pass' t :=
        (ih middle (behind.step evolved grown) later).mpr others
      obtain ⟨pass',t,tail⟩ := others'
      refine ⟨pass',t,?_⟩
      rw [List.foldlM_cons]
      exact commits_bind.mpr ⟨middle,m',applied,tail⟩

/-- Processed facts exist and read back. -/
theorem valid_processed {ids : List FactId} {s t : Db} {u : Unit} (committed : Commits (ids.foldlM (fun _ id => do
    let _ ← require_fact self id (.UnknownFact id)) ()) s u t) :
    t = s ∧ ∀ id ∈ ids, ∃ f ∈ s.facts.rows, f.id = id ∧ f.metadata.Parses := by
  induction ids generalizing s with
  | nil =>
    obtain ⟨_,rfl⟩ := commits_pure.mp committed
    exact ⟨rfl,by simp⟩
  | cons id rest ih =>
    rw [List.foldlM_cons] at committed
    obtain ⟨_,_,first,later⟩ := commits_bind.mp committed
    obtain ⟨f,_,checked,last⟩ := commits_bind.mp first
    obtain ⟨found,readable,rfl⟩ := commits_require_fact.mp checked
    obtain ⟨_,rfl⟩ := commits_pure.mp last
    obtain ⟨rfl,held⟩ := ih later
    obtain ⟨member,same⟩ := Table.find_eq_some.mp found
    exact ⟨rfl,List.forall_mem_cons.mpr ⟨⟨f,member,same,readable.2.2.2.2.2.2.2⟩,held⟩⟩

/-- The marker is one object deep. -/
theorem marker_parses (cycle_id : Nat) (now : DateTime) :
    (Json.obj [("dream_cycle",.obj [("cycle_id",.int cycle_id),("cycled_at",.str now.to_rfc3339)])]).Parses := by
  simp [Json.Parses,Json.depth,Json.fieldDepth,Json.RECURSION_LIMIT]

/-- The row of a fact whose metadata can be merged into. -/
def Mergeable (s : Db) (id : FactId) : Prop := ∃ f ∈ s.facts.rows, f.id = id ∧ f.metadata.Parses

/-- A merge into one row decides nothing about the others. -/
theorem mergeable_merge {id other : FactId} {fields : List (String × Json)} {s t : Db} {u : Unit} (shallow : (Json.obj fields).Parses)
    (merged : Commits (FactStore.merge_metadata id (.obj fields)) s u t) : Mergeable t other ↔ Mergeable s other := by
  obtain ⟨held,written⟩ := FactStore.commits_merge_metadata.mp merged
  constructor
  · rintro ⟨f',there,same,parses⟩
    rw [written,Tables.updateFact,Table.mem_update] at there
    obtain ⟨f,member,shape⟩ := there
    by_cases chosen : other = id
    · rw [chosen]
      exact held
    · have apart : (f.id == id) = false := by
        refine beq_eq_false_iff_ne.mpr fun here => chosen ?_
        rw [← same,shape]
        split <;> exact here
      rw [apart] at shape
      exact ⟨f,member,by rw [← same,shape]; rfl,by rw [shape] at parses; exact parses⟩
  · rintro ⟨f,member,same,parses⟩
    obtain ⟨f',there,keeps⟩ := (evolved_merge (le_refl id) shallow merged).kept f member
    exact ⟨f',there,keeps.id.trans same,keeps.parses parses⟩

/-- Marking commits exactly when every listed fact exists and its metadata parses. -/
theorem commits_mark_iff {ids : List FactId} {cycle_id : Nat} {now : DateTime} {s : Db} :
    (∃ t, Commits (FactStore.mark_dream_cycled ids cycle_id now) s () t) ↔ ∀ id ∈ ids, Mergeable s id := by
  induction ids generalizing s with
  | nil => exact iff_of_true ⟨s,commits_pure.mpr ⟨rfl,rfl⟩⟩ (by simp)
  | cons id rest ih =>
    rw [List.forall_mem_cons]
    constructor
    · rintro ⟨t,committed⟩
      rw [FactStore.mark_dream_cycled,List.foldlM_cons] at committed
      obtain ⟨_,m,merged,later⟩ := commits_bind.mp committed
      refine ⟨(FactStore.commits_merge_metadata.mp merged).1,fun other listed => ?_⟩
      exact (mergeable_merge (marker_parses cycle_id now) merged).mp (ih.mp ⟨t,later⟩ other listed)
    · rintro ⟨⟨f,member,same,parses⟩,others⟩
      obtain ⟨m,merged⟩ := FactStore.merge_metadata_commits
        [("dream_cycle",.obj [("cycle_id",.int cycle_id),("cycled_at",.str now.to_rfc3339)])] member same parses
      obtain ⟨t,later⟩ := ih.mpr fun other listed => (mergeable_merge (marker_parses cycle_id now) merged).mpr (others other listed)
      refine ⟨t,?_⟩
      rw [FactStore.mark_dream_cycled,List.foldlM_cons]
      exact commits_bind.mpr ⟨(),m,merged,later⟩

/-- What marking makes of a row. -/
structure Marked (ids : List FactId) (f f' : Fact) : Prop where
  id : f'.id = f.id
  pinned : f'.is_pinned = f.is_pinned
  expiry : f'.t_expired = f.t_expired
  kept : f.metadata.hasKey "dream_cycle" = true → f'.metadata.hasKey "dream_cycle" = true
  set : f.id ∈ ids → f'.metadata.hasKey "dream_cycle" = true

theorem marked_rows {ids : List FactId} {cycle_id : Nat} {now : DateTime} {s t : Db} {u : Unit}
    (committed : Commits (FactStore.mark_dream_cycled ids cycle_id now) s u t) :
    ∀ f' ∈ t.facts.rows, ∃ f ∈ s.facts.rows, Marked ids f f' := by
  induction ids generalizing s with
  | nil =>
    obtain ⟨_,rfl⟩ := commits_pure.mp committed
    exact fun f member => ⟨f,member,rfl,rfl,rfl,fun held => held,by simp⟩
  | cons id rest ih =>
    rw [FactStore.mark_dream_cycled,List.foldlM_cons] at committed
    obtain ⟨_,m,merged,later⟩ := commits_bind.mp committed
    obtain ⟨_,written⟩ := FactStore.commits_merge_metadata.mp merged
    intro f'' there
    obtain ⟨f',held,second⟩ := ih later f'' there
    rw [written,Tables.updateFact,Table.mem_update] at held
    obtain ⟨f,member,rfl⟩ := held
    refine ⟨f,member,?_⟩
    by_cases chosen : (f.id == id) = true
    · rw [if_pos chosen] at second
      have stamped : f''.metadata.hasKey "dream_cycle" = true := by
        refine second.kept ?_
        rw [FactStore.hasKey_mergedMetadata]
        simp
      exact ⟨second.id,second.pinned,second.expiry,fun _ => stamped,fun _ => stamped⟩
    · rw [if_neg chosen] at second
      have apart : f.id ≠ id := by simpa using chosen
      exact ⟨second.id,second.pinned,second.expiry,second.kept,fun listed => second.set ((List.mem_cons.mp listed).resolve_left apart)⟩

/-- The stored history, if there is one, deserializes. -/
def HistoryReads (codec : HistoryCodec) (t : Tables) : Prop :=
  ∀ text ∈ t.config.lookup DREAM_CYCLE_HISTORY, ∃ history, codec.from_str text = .ok history

theorem commits_append_cycle_history_iff {codec : HistoryCodec} {metadata : CycleMetadata} {s : Db} :
    (∃ t, Commits (append_cycle_history codec metadata) s () t) ↔ HistoryReads codec s.toTables := by
  have appended : ∀ history : List CycleMetadata, ∃ t, Commits (Config.set_config DREAM_CYCLE_HISTORY
      (codec.to_string ((history ++ [metadata]).drop ((history ++ [metadata]).length - DREAM_CYCLE_HISTORY_MAX)))) s () t :=
    fun history => Config.set_config_commits _ _ s
  unfold append_cycle_history Config.get_config
  simp only [commits_bind,commits_query]
  constructor
  · rintro ⟨t,_,_,⟨rfl,rfl⟩,rest⟩
    intro text stored
    rw [Option.mem_def.mp stored] at rest
    obtain ⟨history,m,read,_⟩ := commits_bind.mp rest
    exact ⟨history,(commits_lift.mp read).1⟩
  · intro reads
    cases stored : s.config.lookup DREAM_CYCLE_HISTORY with
    | none =>
      obtain ⟨t,set⟩ := appended []
      refine ⟨t,none,s,⟨rfl,rfl⟩,?_⟩
      exact commits_bind.mpr ⟨[],s,commits_pure.mpr ⟨rfl,rfl⟩,set⟩
    | some text =>
      obtain ⟨history,parsed⟩ := reads text (Option.mem_def.mpr stored)
      obtain ⟨t,set⟩ := appended history
      refine ⟨t,some text,s,⟨rfl,rfl⟩,?_⟩
      exact commits_bind.mpr ⟨history,s,commits_lift.mpr ⟨parsed,rfl⟩,set⟩

/-- The parts of a committed report: what validation and the pass over the deltas
    did, the marks, and the two configuration writes. -/
theorem commits_report {codec : HistoryCodec} {report : CycleReport} {now : DateTime} {s t : Db} {pass : ApplyPass} :
    Commits (apply_cycle_deltas_atomic self codec report now) s pass t ↔ ∃ m m' m'',
      Commits (validate_report self report) s () s ∧ Commits (require_identity report) s () s ∧
        Commits (report.deltas.foldlM (applyDelta self now) {}) s pass m ∧
        Commits (FactStore.mark_dream_cycled (toMark report pass) report.metadata.cycle_id now) m () m' ∧
        Commits (Config.set_config LAST_DREAM_CYCLE_AT report.metadata.time_window.end.to_rfc3339) m' () m'' ∧
        Commits (append_cycle_history codec report.metadata) m'' () t := by
  unfold apply_cycle_deltas_atomic
  simp only [commits_bind]
  constructor
  · rintro ⟨_,m₁,validated,_,m₂,identity,_,m,applied,_,m',marked,_,m'',dated,_,m₃,appended,last⟩
    obtain ⟨rfl,rfl⟩ := commits_pure.mp last
    obtain ⟨rfl,_⟩ := validated_report validated
    have same : m₂ = m₁ := by
      rcases commits_guarded.mp identity with ⟨_,present⟩ | ⟨_,same⟩
      · exact (EmbeddingMeta.commits_require_present.mp present).2
      · exact same
    rw [same] at identity applied
    exact ⟨m,m',m'',validated,identity,applied,marked,dated,appended⟩
  · rintro ⟨m,m',m'',validated,identity,applied,marked,dated,appended⟩
    exact ⟨(),s,validated,(),s,identity,pass,m,applied,(),m',marked,(),m'',dated,(),t,appended,commits_pure.mpr ⟨rfl,rfl⟩⟩

/-- Validation as the pass over the deltas relies on it. -/
theorem valid_report {report : CycleReport} {s : Db} (validated : Commits (validate_report self report) s () s) :
    (∃ expired, Commits (report.deltas.foldlM (validateDelta self) []) s expired s) ∧
      ∀ id ∈ report.metadata.processed_ids, Mergeable s id := by
  obtain ⟨expired,m,first,rest⟩ := commits_bind.mp validated
  obtain ⟨rfl,_⟩ := validated_deltas first
  exact ⟨⟨expired,first⟩,(valid_processed rest).2⟩

theorem mem_toMark {report : CycleReport} {pass : ApplyPass} {id : FactId} :
    id ∈ toMark report pass ↔ id ∈ report.metadata.processed_ids ∨ id ∈ pass.created ∨ id ∈ pass.supersede_new_ids := by
  simp only [toMark,ApplyPass.created,List.mem_dedup,List.mem_insertionSort,List.mem_append]
  tauto

theorem leaves_mark (ids : List FactId) (cycle_id : Nat) (now : DateTime) :
    Leaves Tables.config (FactStore.mark_dream_cycled ids cycle_id now) := by
  refine leaves_foldlM (fun _ id => ?_) ids ()
  intro s u t merged
  rw [(FactStore.commits_merge_metadata.mp merged).2]
  rfl

/-- Recording the end of the window does not touch the history. -/
theorem historyReads_dated {codec : HistoryCodec} {value : String} {s t : Db} {u : Unit}
    (dated : Commits (Config.set_config LAST_DREAM_CYCLE_AT value) s u t) : HistoryReads codec t.toTables ↔ HistoryReads codec s.toTables := by
  have apart : DREAM_CYCLE_HISTORY ≠ LAST_DREAM_CYCLE_AT := by decide
  rw [HistoryReads,HistoryReads,commits_execute.mp dated]
  simp only [Config.lookup_put_ne apart]

/-- The facts to mark can be marked exactly when the metadata of every fact the
    report brings along parses. -/
theorem mergeable_toMark {report : CycleReport} {now : DateTime} {s m : Db} {pass : ApplyPass}
    (validated : Commits (validate_report self report) s () s)
    (applied : Commits (report.deltas.foldlM (applyDelta self now) {}) s pass m) :
    (∀ id ∈ toMark report pass, Mergeable m id) ↔ ∀ delta ∈ report.deltas, ∀ nf ∈ delta.newFact, nf.metadata.Parses := by
  obtain ⟨⟨expired,checked⟩,processed⟩ := valid_report validated
  obtain ⟨_,gone,fresh,tags,behind,noted⟩ := behind_deltas (Behind.start s) checked applied
  rw [List.nil_append] at behind
  have survives : ∀ {id}, Mergeable s id → Mergeable m id := by
    rintro id ⟨f,member,same,parses⟩
    obtain ⟨f',there,keeps⟩ := behind.evolved.kept f member
    exact ⟨f',there,keeps.id.trans same,keeps.parses parses⟩
  have made : (∀ id ∈ fresh.map Prod.fst, Mergeable m id) ↔ ∀ entry ∈ fresh, entry.2.Parses := by
    rw [List.forall_mem_map]
    refine forall₂_congr fun entry listed => ?_
    obtain ⟨_,f,member,same,metadata⟩ := behind.evolved.made entry listed
    constructor
    · rintro ⟨g,held,here,parses⟩
      have equal : g = f := m.facts.key_unique held member (here.trans same.symm)
      rwa [← metadata,← equal]
    · intro parses
      exact ⟨f,member,same,by rwa [metadata]⟩
  rw [← noted.parses,← made]
  constructor
  · intro all id listed
    exact all id (mem_toMark.mpr (.inr (.inl ((noted.created id).mpr (.inr listed)))))
  · intro all id listed
    rcases mem_toMark.mp listed with seen | created | successor
    · exact survives (processed id seen)
    · rcases (noted.created id).mp created with none_ | new
      · cases none_
      · exact all id new
    · rcases (noted.successors id).mp successor with none_ | ⟨old,named⟩
      · cases none_
      · obtain ⟨_,valid⟩ := valid_of_mem checked _ named
        obtain ⟨f,member,same,readable,_⟩ := valid.2.1
        exact survives ⟨f,member,same,readable.2.2.2.2.2.2.2⟩

/-- After the pass over the deltas the report is applied if the metadata of its new facts
    parses and the stored history deserializes. -/
theorem report_commits {codec : HistoryCodec} {report : CycleReport} {now : DateTime} {s m : Db} {pass : ApplyPass}
    (validated : Commits (validate_report self report) s () s) (present : Commits (require_identity report) s () s)
    (applied : Commits (report.deltas.foldlM (applyDelta self now) {}) s pass m)
    (parse : ∀ delta ∈ report.deltas, ∀ nf ∈ delta.newFact, nf.metadata.Parses) (reads : HistoryReads codec s.toTables) :
    ∃ t, Commits (apply_cycle_deltas_atomic self codec report now) s pass t := by
  obtain ⟨⟨expired,checked⟩,_⟩ := valid_report validated
  obtain ⟨_,_,_,_,behind,_⟩ := behind_deltas (Behind.start s) checked applied
  obtain ⟨m',marked⟩ := commits_mark_iff.mpr ((mergeable_toMark validated applied).mpr parse)
  obtain ⟨m'',dated⟩ := Config.set_config_commits LAST_DREAM_CYCLE_AT report.metadata.time_window.end.to_rfc3339 m'
  have legible : HistoryReads codec m''.toTables := by
    rw [historyReads_dated dated,HistoryReads,leaves_mark _ _ _ m () m' marked,behind.evolved.config]
    exact reads
  obtain ⟨t,appended⟩ := commits_append_cycle_history_iff.mpr legible
  exact ⟨t,commits_report.mpr ⟨m,m',m'',validated,present,applied,marked,dated,appended⟩⟩

end Cycle

/-- After validation passed, in a store with an embedding identity, the report is
    applied exactly when every row it creates can be stored, the metadata of its new
    facts parses and the stored history deserializes. -/
theorem apply_cycle_deltas_atomic_commits_iff {self : SqliteBackend} {codec : HistoryCodec} {report : CycleReport} {now : DateTime}
    {s : Db} (validated : Commits (Cycle.validate_report self report) s () s) (identity : s.activeSpace ≠ none) :
    (∃ pass t, Commits (Cycle.apply_cycle_deltas_atomic self codec report now) s pass t) ↔
      StorableAll s.toTables 0 report.deltas ∧ (∀ delta ∈ report.deltas, ∀ nf ∈ delta.newFact, nf.metadata.Parses) ∧
        Cycle.HistoryReads codec s.toTables := by
  obtain ⟨⟨expired,checked⟩,_⟩ := Cycle.valid_report validated
  have storable := Cycle.commits_deltas_iff now {} identity (Cycle.Behind.start s) checked
  constructor
  · rintro ⟨pass,t,committed⟩
    obtain ⟨m,m',m'',_,_,applied,marked,dated,appended⟩ := Cycle.commits_report.mp committed
    refine ⟨storable.mp ⟨pass,m,applied⟩,?_,?_⟩
    · exact (Cycle.mergeable_toMark validated applied).mp (Cycle.commits_mark_iff.mp ⟨m',marked⟩)
    · obtain ⟨_,_,_,_,behind,_⟩ := Cycle.behind_deltas (Cycle.Behind.start s) checked applied
      have legible := Cycle.commits_append_cycle_history_iff.mp ⟨t,appended⟩
      rwa [Cycle.historyReads_dated dated,Cycle.HistoryReads,Cycle.leaves_mark _ _ _ m () m' marked,behind.evolved.config] at legible
  · rintro ⟨stored,parse,history⟩
    obtain ⟨pass,m,applied⟩ := storable.mpr stored
    have present : Commits (Cycle.require_identity report) s () s := by
      refine commits_guarded.mpr ?_
      by_cases brings : report.deltas.any Cycle.addsVector = true
      · exact .inl ⟨brings,EmbeddingMeta.commits_require_present.mpr ⟨identity,rfl⟩⟩
      · exact .inr ⟨brings,rfl⟩
    obtain ⟨t,committed⟩ := Cycle.report_commits validated present applied parse history
    exact ⟨pass,t,committed⟩

namespace Sample

def space : EmbeddingSpace := ⟨"m_p_1",⟨"m","p",1,none,"f32"⟩,.Active⟩

/-- The sample facts in a store with an embedding identity. -/
def identified : Db := (result (do
  EmbeddingSpaces.insert_active space
  facts) engine).storage

/-- Apply the deltas to that store. -/
def applied (deltas : List CycleDelta) : Sql Cycle.ApplyPass :=
  Cycle.apply_cycle_deltas_atomic backend Cycle.sampleCodec (Cycle.sampleReport deltas) moment

/-- A new fact in a scope that does not exist. -/
def orphan : List CycleDelta := [.AddFact { newFact "d" with scope_id := 99 }]

theorem identified_identity : identified.activeSpace ≠ none := by decide +kernel

theorem validated_of_ends (deltas : List CycleDelta) (ends : Ends (Cycle.validate_report backend (Cycle.sampleReport deltas)) identified
    (fun _ _ => true) = true) : Commits (Cycle.validate_report backend (Cycle.sampleReport deltas)) identified () identified := by
  obtain ⟨_,t,committed,_⟩ := commits_of_ends ends
  obtain ⟨rfl,_⟩ := Cycle.validated_report committed
  exact committed

end Sample

theorem apply_cycle_deltas_atomic_commits_sample :
    (∃ pass t, Commits (Sample.applied [.AddFact (Sample.newFact "d"),.Supersede 2 1]) Sample.identified pass t) ↔
      StorableAll Sample.identified.toTables 0 [.AddFact (Sample.newFact "d"),.Supersede 2 1] ∧
        (∀ delta ∈ [CycleDelta.AddFact (Sample.newFact "d"),.Supersede 2 1], ∀ nf ∈ delta.newFact, nf.metadata.Parses) ∧
          Cycle.HistoryReads Cycle.sampleCodec Sample.identified.toTables :=
  apply_cycle_deltas_atomic_commits_iff (Sample.validated_of_ends _ (by decide +kernel)) Sample.identified_identity

/-- Validation accepts a new fact in a scope that does not exist; storing it breaks
    the reference. -/
theorem missing_scope_stops_pass : ¬ ∀ (self : SqliteBackend) (codec : HistoryCodec) (report : CycleReport) (now : DateTime) (s : Db),
    Commits (Cycle.validate_report self report) s () s → s.activeSpace ≠ none →
      ∃ pass t, Commits (Cycle.apply_cycle_deltas_atomic self codec report now) s pass t := by
  intro claim
  have validated := Sample.validated_of_ends Sample.orphan (by decide +kernel)
  obtain ⟨pass,t,committed⟩ := claim _ Cycle.sampleCodec _ Sample.moment _ validated Sample.identified_identity
  have stopped : Ends (Sample.applied Sample.orphan) Sample.identified (fun _ _ => true) = false := by decide +kernel
  have reached : Ends (Sample.applied Sample.orphan) Sample.identified (fun _ _ => true) = true := ends_of_commits committed
  rw [stopped] at reached
  cases reached

/-- What a delta does to what it replaces: in the state after it, the replacing fact
    is another one and is active. A synthesis replaces its sources by the fact it
    noted last. -/
def CycleDelta.Replaces (pass : Cycle.ApplyPass) (t : Tables) : CycleDelta → Prop
  | .Supersede old_id new_id => new_id ≠ old_id ∧ t.IsActive new_id
  | .Synthesize sources _ => ∃ synth_id, pass.synthesize_new_ids.getLast? = some synth_id ∧ synth_id ∉ sources ∧ t.IsActive synth_id
  | _ => True

/-- Every delta of an accepted report replaces what it replaces by something. -/
def CycleReport.ReplacesAll (self : SqliteBackend) (report : CycleReport) (now : DateTime) (s : Db) : Prop :=
  ∀ front delta rest pass m pass' n, report.deltas = front ++ delta :: rest →
    Commits (front.foldlM (Cycle.applyDelta self now) {}) s pass m → Commits (Cycle.applyDelta self now pass delta) m pass' n →
      delta.Replaces pass' n.toTables

namespace Cycle
variable {self : SqliteBackend}

/-- A validated delta that names no fact twice replaces what it replaces by an active fact. -/
theorem replaces_delta {db m n : Db} {expired gone : List FactId} {fresh : List (FactId × Json)} {tags : Nat} {now : DateTime}
    {delta : CycleDelta} {pass pass' : ApplyPass} (behind : Behind db m expired gone fresh tags) (valid : Valid self db expired delta)
    (apart : ∀ id, delta ≠ .Supersede id id) (committed : Commits (applyDelta self now pass delta) m pass' n) :
    delta.Replaces pass' n.toTables := by
  cases delta with
  | Supersede old_id new_id =>
    have distinct : new_id ≠ old_id := fun same => apart new_id (by rw [same])
    obtain ⟨_,evolved,_⟩ := evolved_delta behind.evolved.seq valid.gone_le committed
    have live : Live self n new_id := (behind.live valid.2.1 valid.2.2).after evolved (by simpa [CycleDelta.gone] using distinct)
    exact ⟨distinct,live.isActive⟩
  | Synthesize sources new_fact =>
    obtain ⟨synth_id,m₁,inserted,rest⟩ := commits_bind.mp committed
    obtain ⟨⟨after,range⟩,m₂,looped,rest⟩ := commits_bind.mp rest
    obtain ⟨record_id,m₃,recorded,last⟩ := commits_bind.mp rest
    obtain ⟨rfl,rfl⟩ := commits_pure.mp last
    obtain ⟨active,_,_,written⟩ := LineageStore.commits_insert.mp recorded
    refine ⟨synth_id,by simp,fun listed => ?_,?_⟩
    · have low : synth_id ≤ db.facts.seq := (valid.2.2 synth_id listed).1.le
      have above : m.facts.seq < m.facts.nextId := Int.lt_succ _
      rw [(inserted_row inserted).1] at low
      exact absurd (low.trans behind.evolved.seq) (not_le.mpr above)
    · rw [written]
      exact active
  | _ => trivial

end Cycle

/-- In an accepted report every replaced fact has an active successor of its own
    if and only if no delta lets a fact supersede itself. -/
theorem accepted_report_replaces_iff {self : SqliteBackend} {codec : HistoryCodec} {report : CycleReport} {now : DateTime}
    {s t : Db} {pass : Cycle.ApplyPass} (committed : Commits (Cycle.apply_cycle_deltas_atomic self codec report now) s pass t) :
    report.ReplacesAll self now s ↔ ∀ id, .Supersede id id ∉ report.deltas := by
  obtain ⟨m,_,_,validated,_,applied,_⟩ := Cycle.commits_report.mp committed
  obtain ⟨⟨expired,checked⟩,_⟩ := Cycle.valid_report validated
  constructor
  · intro replaces id listed
    obtain ⟨front,rest,split⟩ := List.append_of_mem listed
    rw [split] at applied
    obtain ⟨pass₁,m₁,pass₂,n,first,one,_⟩ := commits_foldlM_split front applied
    exact (replaces front _ rest pass₁ m₁ pass₂ n split first one).1 rfl
  · intro apart front delta rest pass₁ m₁ pass₂ n split first one
    rw [split] at checked
    obtain ⟨expired₁,db,_,_,before,here,_⟩ := commits_foldlM_split front checked
    obtain ⟨rfl,_,_,_,behind,_⟩ := Cycle.behind_deltas (Cycle.Behind.start s) before first
    obtain ⟨_,valid,_⟩ := Cycle.valid_delta here
    refine Cycle.replaces_delta behind valid (fun id same => apart id ?_) one
    rw [split,← same]
    exact List.mem_append_right _ List.mem_cons_self

theorem accepted_report_replaces_sample : ∃ pass t, Commits (Sample.applied [.Supersede 2 1]) Sample.identified pass t ∧
    ((Cycle.sampleReport [.Supersede 2 1]).ReplacesAll Sample.backend Sample.moment Sample.identified ↔
      ∀ id, .Supersede id id ∉ [CycleDelta.Supersede 2 1]) := by
  have ends : Ends (Sample.applied [.Supersede 2 1]) Sample.identified (fun _ _ => true) = true := by decide +kernel
  obtain ⟨pass,t,committed,_⟩ := commits_of_ends ends
  exact ⟨pass,t,committed,accepted_report_replaces_iff committed⟩

/-- A fact that supersedes itself passes validation and is left expired. -/
theorem superseded_by_itself : ¬ ∀ (self : SqliteBackend) (codec : HistoryCodec) (report : CycleReport) (now : DateTime)
    (s t : Db) (pass : Cycle.ApplyPass), Commits (Cycle.apply_cycle_deltas_atomic self codec report now) s pass t →
      report.ReplacesAll self now s := by
  intro claim
  have ends : Ends (Sample.applied [.Supersede 1 1]) Sample.identified (fun _ _ => true) = true := by decide +kernel
  obtain ⟨pass,t,committed,_⟩ := commits_of_ends ends
  obtain ⟨m,_,_,_,_,applied,_⟩ := Cycle.commits_report.mp committed
  obtain ⟨pass₁,m₁,pass₂,n,first,one,_⟩ := commits_foldlM_split [] applied
  exact (claim _ _ _ _ _ _ _ committed [] _ [] pass₁ m₁ pass₂ n rfl first one).1 rfl

namespace Cycle
variable {self : SqliteBackend}

theorem has_mark {ids : List FactId} {cycle_id : Nat} {now : DateTime} {s t : Db} {u : Unit} {id : FactId} (held : s.facts.Has id)
    (committed : Commits (FactStore.mark_dream_cycled ids cycle_id now) s u t) : t.facts.Has id := by
  induction ids generalizing s with
  | nil =>
    obtain ⟨_,rfl⟩ := commits_pure.mp committed
    exact held
  | cons first rest ih =>
    rw [FactStore.mark_dream_cycled,List.foldlM_cons] at committed
    obtain ⟨_,m,merged,later⟩ := commits_bind.mp committed
    exact ih (has_after held (evolved_merge (le_refl first) (marker_parses cycle_id now) merged)) later

theorem leaves_append_cycle_history (codec : HistoryCodec) (metadata : CycleMetadata) :
    Leaves Tables.facts (append_cycle_history codec metadata) := by
  refine leaves_bind leaves_query fun stored => ?_
  cases stored with
  | none => exact leaves_bind (leaves_pure _) fun history => leaves_execute fun _ => rfl
  | some text =>
    refine leaves_bind ?_ fun history => leaves_execute fun _ => rfl
    intro s history t read
    rw [(commits_lift.mp read).2]

/-- After a committed report every row is marked or goes back to a row that was as
    much a caller's before, and every fact that superseded another is marked. -/
theorem report_rows {codec : HistoryCodec} {report : CycleReport} {now : DateTime} {s t : Db} {pass : ApplyPass}
    (committed : Commits (apply_cycle_deltas_atomic self codec report now) s pass t) :
    (∀ f' ∈ t.facts.rows, f'.metadata.hasKey "dream_cycle" = true ∨
        ∃ f ∈ s.facts.rows, f.id = f'.id ∧ (FactStore.callerWritten f' = true → FactStore.callerWritten f = true)) ∧
      ∀ old id, .Supersede old id ∈ report.deltas → ∃ f ∈ t.facts.rows, f.id = id ∧ f.metadata.hasKey "dream_cycle" = true := by
  obtain ⟨m,m',m'',validated,_,applied,marked,dated,appended⟩ := commits_report.mp committed
  obtain ⟨⟨expired,checked⟩,_⟩ := valid_report validated
  obtain ⟨_,gone,fresh,tags,behind,noted⟩ := behind_deltas (Behind.start s) checked applied
  rw [List.nil_append] at behind
  have facts : t.facts = m'.facts := by
    rw [leaves_append_cycle_history _ _ m'' () t appended,commits_execute.mp dated]
  rw [facts]
  have rows := marked_rows marked
  refine ⟨fun f' there => ?_,fun old id listed => ?_⟩
  · obtain ⟨f,held,marks⟩ := rows f' there
    rcases behind.evolved.only f held with ⟨f₀,member,same⟩ | new
    · obtain ⟨g,held',keeps⟩ := behind.evolved.kept f₀ member
      obtain rfl : g = f := m.facts.key_unique held' held (keeps.id.trans same)
      refine .inr ⟨f₀,member,same.trans marks.id.symm,fun written => ?_⟩
      simp only [FactStore.callerWritten,Bool.and_eq_true,Bool.not_eq_true',Option.isNone_iff_eq_none] at written ⊢
      obtain ⟨⟨open_,free⟩,unmarked⟩ := written
      refine ⟨⟨keeps.expiry (by rw [← marks.expiry]; exact open_),by rw [← keeps.pinned,← marks.pinned]; exact free⟩,?_⟩
      by_contra stamped
      rw [marks.kept (keeps.marked (by simpa using stamped))] at unmarked
      cases unmarked
    · exact .inl (marks.set (mem_toMark.mpr (.inr (.inl ((noted.created _).mpr (.inr new))))))
  · obtain ⟨_,valid⟩ := valid_of_mem checked _ listed
    obtain ⟨f',there,same⟩ := has_mark (has_after valid.2.1.has behind.evolved) marked
    obtain ⟨f,held,marks⟩ := rows f' there
    have successor : id ∈ toMark report pass := mem_toMark.mpr (.inr (.inr ((noted.successors id).mpr (.inr ⟨old,listed⟩))))
    exact ⟨f',there,same,marks.set (by rwa [← marks.id,show f'.id = id from same])⟩

end Cycle

/-- An accepted report does not raise the newest fact written by a caller. The rows
    it creates are all marked, and so are the facts that superseded others. -/
theorem accepted_report_caller_written {self : SqliteBackend} {codec : HistoryCodec} {report : CycleReport} {now : DateTime}
    {s t : Db} {pass : Cycle.ApplyPass} {before after : Option FactId}
    (committed : Commits (Cycle.apply_cycle_deltas_atomic self codec report now) s pass t)
    (newest : Commits FactStore.max_caller_written_fact_id s before s) (newest' : Commits FactStore.max_caller_written_fact_id t after t) :
    (∀ id ∈ after, ∃ old ∈ before, id ≤ old) ∧
      (∀ f ∈ t.facts.rows, ¬ s.facts.Has f.id → f.metadata.hasKey "dream_cycle" = true) ∧
        ∀ old id, .Supersede old id ∈ report.deltas → ∃ f ∈ t.facts.rows, f.id = id ∧ f.metadata.hasKey "dream_cycle" = true := by
  obtain ⟨rows,successors⟩ := Cycle.report_rows committed
  obtain ⟨read,_⟩ := commits_query.mp newest
  obtain ⟨read',_⟩ := commits_query.mp newest'
  refine ⟨fun id last => ?_,fun f member new => ?_,successors⟩
  · obtain ⟨f',chosen,rfl⟩ := List.mem_map.mp (List.max?_mem (read'.symm.trans last))
    obtain ⟨there,written⟩ := List.mem_filter.mp chosen
    rcases rows f' there with stamped | ⟨f,member,same,was⟩
    · simp [FactStore.callerWritten,stamped] at written
    · have listed : f.id ∈ (s.facts.rows.filter FactStore.callerWritten).map Fact.id :=
        List.mem_map_of_mem (List.mem_filter.mpr ⟨member,was written⟩)
      obtain ⟨top,reached⟩ := Option.isSome_iff_exists.mp (List.isSome_max?_of_mem listed)
      refine ⟨top,by rw [read]; exact reached,?_⟩
      rw [← same]
      exact (List.max?_le_iff reached).mp (le_refl top) _ listed
  · rcases rows f member with stamped | ⟨f₀,held,same,_⟩
    · exact stamped
    · exact absurd ⟨f₀,held,same⟩ new

theorem accepted_report_caller_written_sample :
    ∃ pass t, Commits (Sample.applied [.AddFact (Sample.newFact "d"),.Supersede 3 1]) Sample.identified pass t ∧
      (∀ id ∈ (some 2 : Option FactId), ∃ old ∈ (some 3 : Option FactId), id ≤ old) ∧
        (∀ f ∈ t.facts.rows, ¬ Sample.identified.facts.Has f.id → f.metadata.hasKey "dream_cycle" = true) ∧
          ∀ old id, .Supersede old id ∈ [CycleDelta.AddFact (Sample.newFact "d"),.Supersede 3 1] →
            ∃ f ∈ t.facts.rows, f.id = id ∧ f.metadata.hasKey "dream_cycle" = true := by
  have ends : Ends (Sample.applied [.AddFact (Sample.newFact "d"),.Supersede 3 1]) Sample.identified
      (fun _ t => ((t.facts.rows.filter FactStore.callerWritten).map Fact.id).max? == some 2) = true := by decide +kernel
  obtain ⟨pass,t,committed,newest⟩ := commits_of_ends ends
  refine ⟨pass,t,committed,accepted_report_caller_written committed (commits_query.mpr ⟨?_,rfl⟩)
    (commits_query.mpr ⟨(beq_iff_eq.mp newest).symm,rfl⟩)⟩
  decide +kernel

end MemoryEngine
