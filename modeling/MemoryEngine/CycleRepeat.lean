import MemoryEngine.VectorNotices

/-! A report that is applied once more. The marker keeps processed facts out of the next
selection, but the deltas of a report are run against the rows as they are: an adjustment
is added again, a copy is made again, and an expired fact is refused. -/

namespace MemoryEngine
open Time KeyedTable Transaction

/-- The row without its metadata, which is where the marker is. -/
def Fact.unmarked (f : Fact) : Fact := { f with metadata := .null }

/-- Tables that differ in markers, watermark and history at most. -/
structure Tables.SameButMarks (t t' : Tables) : Prop where
  rows : t'.facts.rows.map Fact.unmarked = t.facts.rows.map Fact.unmarked
  seq : t'.facts.seq = t.facts.seq
  config : ∀ key, key ≠ LAST_DREAM_CYCLE_AT → key ≠ DREAM_CYCLE_HISTORY → t'.config.lookup key = t.config.lookup key
  rest : t' = { t with facts := t'.facts, config := t'.config }

/-- The importance of one fact after a delta. -/
def CycleDelta.readjust (self : SqliteBackend) (id : FactId) (importance : SqlReal) : CycleDelta → SqlReal
  | .AdjustScore fact_id adjustment => if id = fact_id then Cycle.adjusted self adjustment importance else importance
  | _ => importance

/-- The fact after the adjustments of a report. -/
def Fact.readjusted (self : SqliteBackend) (deltas : List CycleDelta) (f : Fact) : Fact :=
  { f with base_importance := deltas.foldl (CycleDelta.readjust self f.id) f.base_importance }

/-- The report adjusts scores of active facts within the bounds and does nothing else, and
    for each fact its adjustments together leave the importance as it is. -/
structure CycleReport.Settled (backend : SqliteBackend) (report : CycleReport) (t : Db) : Prop where
  adjusts : ∀ delta ∈ report.deltas, ∃ fact_id adjustment, delta = .AdjustScore fact_id adjustment ∧
    ¬ adjustment.abs > MAX_ADJUSTMENT ∧ Cycle.Live backend t fact_id
  processed : ∀ id ∈ report.metadata.processed_ids, ∃ f ∈ t.facts.rows, f.id = id ∧ f.Readable backend.embed_dim
  level : ∀ f ∈ t.facts.rows, report.deltas.foldl (CycleDelta.readjust backend f.id) f.base_importance = f.base_importance

namespace Tables.SameButMarks
variable {s m t : Tables}

theorem refl (t : Tables) : SameButMarks t t := ⟨rfl,rfl,fun _ _ _ => rfl,rfl⟩

theorem trans (first : SameButMarks s m) (second : SameButMarks m t) : SameButMarks s t where
  rows := second.rows.trans first.rows
  seq := second.seq.trans first.seq
  config := fun key apart away => (second.config key apart away).trans (first.config key apart away)
  rest := by
    rw [second.rest,first.rest]

theorem of_config {key value : String} (own : key = LAST_DREAM_CYCLE_AT ∨ key = DREAM_CYCLE_HISTORY)
    (written : t = { s with config := Config.put key value s.config }) : SameButMarks s t := by
  rw [written]
  refine ⟨rfl,rfl,fun other apart away => ?_,rfl⟩
  have different : other ≠ key := by
    rcases own with rfl | rfl
    · exact apart
    · exact away
  exact Config.lookup_put_ne different _

theorem of_update {sel : Fact → Bool} {change : Fact → Fact} {same : ∀ f, (change f).id = f.id}
    (kept : ∀ f, (change f).unmarked = f.unmarked) (written : t = { s with facts := s.facts.update sel change same }) : SameButMarks s t := by
  rw [written]
  refine ⟨?_,rfl,fun _ _ _ => rfl,rfl⟩
  change (s.facts.update sel change same).rows.map Fact.unmarked = _
  rw [Table.update_rows,List.map_map]
  refine List.map_congr_left fun f _ => ?_
  rw [Function.comp_apply]
  split
  · exact kept f
  · rfl

/-- A row on either side has a row on the other that differs in its metadata at most. -/
theorem row (alike : SameButMarks s t) {f : Fact} (member : f ∈ s.facts.rows) : ∃ f' ∈ t.facts.rows, f'.unmarked = f.unmarked := by
  have listed : f.unmarked ∈ t.facts.rows.map Fact.unmarked := by
    rw [alike.rows]
    exact List.mem_map_of_mem member
  exact List.mem_map.mp listed

theorem row_back (alike : SameButMarks s t) {f' : Fact} (member : f' ∈ t.facts.rows) : ∃ f ∈ s.facts.rows, f'.unmarked = f.unmarked := by
  have listed : f'.unmarked ∈ s.facts.rows.map Fact.unmarked := by
    rw [← alike.rows]
    exact List.mem_map_of_mem member
  obtain ⟨f,held,same⟩ := List.mem_map.mp listed
  exact ⟨f,held,same.symm⟩

theorem unmarked_id {f f' : Fact} (same : f'.unmarked = f.unmarked) : f'.id = f.id ∧ f'.t_expired = f.t_expired := by
  have identity := congrArg Fact.id same
  have expiry := congrArg Fact.t_expired same
  exact ⟨identity,expiry⟩

theorem active (alike : SameButMarks s t) {id : FactId} : t.IsActive id ↔ s.IsActive id := by
  constructor
  · rintro ⟨f',member,rfl,expiry⟩
    obtain ⟨f,held,same⟩ := alike.row_back member
    obtain ⟨identity,ending⟩ := unmarked_id same
    exact ⟨f,held,identity.symm,ending.symm.trans expiry⟩
  · rintro ⟨f,held,rfl,expiry⟩
    obtain ⟨f',member,same⟩ := alike.row held
    obtain ⟨identity,ending⟩ := unmarked_id same
    exact ⟨f',member,identity,ending.trans expiry⟩

theorem vectors (alike : SameButMarks s t) : t.vectors = s.vectors := by
  have pairs := congrArg (List.map fun f : Fact => (f.id,f.embedding)) alike.rows
  rw [List.map_map,List.map_map] at pairs
  exact pairs

end Tables.SameButMarks

namespace Cycle
variable {self : SqliteBackend}

theorem sameButMarks_mark {ids : List FactId} {cycle_id : Nat} {now : DateTime} {s t : Db} {u : Unit}
    (committed : Commits (FactStore.mark_dream_cycled ids cycle_id now) s u t) : s.toTables.SameButMarks t.toTables := by
  have keeps : Keeps (fun s t : Db => s.toTables.SameButMarks t.toTables) (FactStore.mark_dream_cycled ids cycle_id now) := by
    refine Keeps.foldlM ?_ ?_ ?_ ids ()
    · exact fun _ => .refl _
    · exact fun _ _ _ first second => first.trans second
    · intro _ id s u t merged
      refine Tables.SameButMarks.of_update ?_ (FactStore.commits_merge_metadata.mp merged).2
      exact fun _ => rfl
  exact keeps _ _ _ committed

/-- Appending to the history writes one entry of the configuration. -/
theorem history_written {codec : HistoryCodec} {metadata : CycleMetadata} {s t : Db} {u : Unit}
    (committed : Commits (append_cycle_history codec metadata) s u t) :
    ∃ history, t.toTables = { s.toTables with config := Config.put DREAM_CYCLE_HISTORY (codec.to_string history) s.config } := by
  obtain ⟨stored,m,looked,rest⟩ := commits_bind.mp committed
  obtain ⟨rfl,rfl⟩ := commits_query.mp looked
  cases found : m.config.lookup DREAM_CYCLE_HISTORY with
  | none =>
    rw [found] at rest
    obtain ⟨history,_,read,set⟩ := commits_bind.mp rest
    obtain ⟨_,rfl⟩ := commits_pure.mp read
    exact ⟨_,commits_execute.mp set⟩
  | some text =>
    rw [found] at rest
    obtain ⟨history,_,read,set⟩ := commits_bind.mp rest
    obtain ⟨_,rfl⟩ := commits_lift.mp read
    exact ⟨_,commits_execute.mp set⟩

theorem sameButMarks_history {codec : HistoryCodec} {metadata : CycleMetadata} {s t : Db} {u : Unit}
    (committed : Commits (append_cycle_history codec metadata) s u t) : s.toTables.SameButMarks t.toTables := by
  obtain ⟨history,written⟩ := history_written committed
  exact .of_config (.inr rfl) written

/-- What follows the pass over the deltas is markers, watermark and history. -/
theorem sameButMarks_closing {codec : HistoryCodec} {report : CycleReport} {now : DateTime} {pass : ApplyPass} {m m' m'' t : Db}
    (marked : Commits (FactStore.mark_dream_cycled (toMark report pass) report.metadata.cycle_id now) m () m')
    (dated : Commits (Config.set_config LAST_DREAM_CYCLE_AT report.metadata.time_window.end.to_rfc3339) m' () m'')
    (appended : Commits (append_cycle_history codec report.metadata) m'' () t) : m.toTables.SameButMarks t.toTables :=
  ((sameButMarks_mark marked).trans (.of_config (.inl rfl) (commits_execute.mp dated))).trans (sameButMarks_history appended)

/-- An adjustment reads the row and writes the clamped sum back. -/
theorem commits_adjust {now : DateTime} {pass pass' : ApplyPass} {fact_id : FactId} {adjustment : Int16} {s t : Db} :
    Commits (applyDelta self now pass (.AdjustScore fact_id adjustment)) s pass' t ↔ ∃ f, s.facts.find fact_id = some f ∧ f.Readable self.embed_dim ∧
      t.toTables = s.updateFact fact_id (fun g => { g with base_importance := adjusted self adjustment f.base_importance }) ∧
        pass' = { pass with result := { pass.result with scores_adjusted := pass.result.scores_adjusted + 1 } } := by
  constructor
  · intro committed
    obtain ⟨f,_,got,rest⟩ := commits_bind.mp committed
    obtain ⟨found,readable,rfl⟩ := FactStore.commits_get.mp got
    obtain ⟨_,m,updated,last⟩ := commits_bind.mp rest
    obtain ⟨rfl,rfl⟩ := commits_pure.mp last
    exact ⟨f,found,readable,(FactStore.commits_updateRow.mp updated).2,rfl⟩
  · rintro ⟨f,found,readable,written,rfl⟩
    refine commits_bind.mpr ⟨f,s,FactStore.commits_get.mpr ⟨found,readable,rfl⟩,commits_bind.mpr ⟨(),t,?_,commits_pure.mpr ⟨rfl,rfl⟩⟩⟩
    exact FactStore.commits_updateRow.mpr ⟨Table.has_iff_find.mpr ⟨f,found⟩,written⟩

/-- One adjustment of all rows at once. -/
theorem rows_adjust {now : DateTime} {pass pass' : ApplyPass} {fact_id : FactId} {adjustment : Int16} {s t : Db}
    (committed : Commits (applyDelta self now pass (.AdjustScore fact_id adjustment)) s pass' t) :
    t.facts.rows = s.facts.rows.map (Fact.readjusted self [.AdjustScore fact_id adjustment]) ∧ t.facts.seq = s.facts.seq ∧
      t.toTables = { s.toTables with facts := t.facts } := by
  obtain ⟨f,found,_,written,_⟩ := commits_adjust.mp committed
  obtain ⟨held,named⟩ := Table.find_eq_some.mp found
  rw [written]
  refine ⟨?_,rfl,rfl⟩
  rw [Tables.updateFact,Table.update_rows]
  refine List.map_congr_left fun g member => ?_
  by_cases same : g.id = fact_id
  · obtain rfl : g = f := s.facts.key_unique member held (same.trans named.symm)
    simp [Fact.readjusted,CycleDelta.readjust,same]
  · simp [Fact.readjusted,CycleDelta.readjust,same]

theorem readjusted_append (first rest : List CycleDelta) (f : Fact) :
    (f.readjusted self first).readjusted self rest = f.readjusted self (first ++ rest) := by
  simp only [Fact.readjusted,List.foldl_append]

/-- The pass over adjustments is one rewriting of the rows. -/
theorem rows_adjusts {now : DateTime} {deltas : List CycleDelta} {pass pass' : ApplyPass} {s t : Db}
    (adjusts : ∀ delta ∈ deltas, ∃ fact_id adjustment, delta = .AdjustScore fact_id adjustment)
    (committed : Commits (deltas.foldlM (applyDelta self now) pass) s pass' t) :
    t.facts.rows = s.facts.rows.map (Fact.readjusted self deltas) ∧ t.facts.seq = s.facts.seq ∧ t.toTables = { s.toTables with facts := t.facts } := by
  induction deltas generalizing pass s with
  | nil =>
    obtain ⟨_,rfl⟩ := commits_pure.mp committed
    exact ⟨(List.map_id _).symm,rfl,rfl⟩
  | cons delta rest ih =>
    rw [List.foldlM_cons] at committed
    obtain ⟨next,m,first,tail⟩ := commits_bind.mp committed
    obtain ⟨fact_id,adjustment,rfl⟩ := adjusts delta List.mem_cons_self
    obtain ⟨rows,seq,whole⟩ := rows_adjust first
    obtain ⟨rows',seq',whole'⟩ := ih (fun other listed => adjusts other (List.mem_cons_of_mem _ listed)) tail
    refine ⟨?_,seq'.trans seq,?_⟩
    · rw [rows',rows,List.map_map]
      exact List.map_congr_left fun f _ => readjusted_append [.AdjustScore fact_id adjustment] rest f
    · rw [whole',whole]

/-- An adjustment of a live fact is made, and leaves every fact as live as it was. -/
theorem adjust_commits (now : DateTime) (pass : ApplyPass) {fact_id : FactId} (adjustment : Int16) {s : Db} (live : Live self s fact_id) :
    ∃ pass' t, Commits (applyDelta self now pass (.AdjustScore fact_id adjustment)) s pass' t ∧ ∀ id, Live self s id → Live self t id := by
  obtain ⟨f,member,same,readable,_⟩ := live
  obtain ⟨t,written⟩ := FactStore.update_base_importance_commits (adjusted self adjustment f.base_importance) ⟨f,member,same⟩
  have committed : Commits (applyDelta self now pass (.AdjustScore fact_id adjustment)) s
      { pass with result := { pass.result with scores_adjusted := pass.result.scores_adjusted + 1 } } t :=
    commits_adjust.mpr ⟨f,Table.find_eq_some.mpr ⟨member,same⟩,readable,(FactStore.commits_updateRow.mp written).2,rfl⟩
  obtain ⟨_,evolved,_⟩ := evolved_delta (le_refl s.facts.seq) (fun _ listed => absurd listed List.not_mem_nil) committed
  exact ⟨_,t,committed,fun id live => live.after evolved List.not_mem_nil⟩

theorem adjusts_commit (now : DateTime) {deltas : List CycleDelta} (pass : ApplyPass) {s : Db}
    (lives : ∀ delta ∈ deltas, ∃ fact_id adjustment, delta = .AdjustScore fact_id adjustment ∧ Live self s fact_id) :
    ∃ pass' t, Commits (deltas.foldlM (applyDelta self now) pass) s pass' t := by
  induction deltas generalizing pass s with
  | nil => exact ⟨pass,s,commits_pure.mpr ⟨rfl,rfl⟩⟩
  | cons delta rest ih =>
    obtain ⟨fact_id,adjustment,rfl,live⟩ := lives delta List.mem_cons_self
    obtain ⟨next,m,first,kept⟩ := adjust_commits now pass adjustment live
    have later : ∀ delta ∈ rest, ∃ fact_id adjustment, delta = .AdjustScore fact_id adjustment ∧ Live self m fact_id := by
      intro other listed
      obtain ⟨id,amount,rfl,there⟩ := lives other (List.mem_cons_of_mem _ listed)
      exact ⟨id,amount,rfl,kept id there⟩
    obtain ⟨pass',t,tail⟩ := ih next later
    exact ⟨pass',t,by rw [List.foldlM_cons]; exact commits_bind.mpr ⟨next,m,first,tail⟩⟩

/-- Recorded events stay. -/
theorem events_deltas {db db' m t : Db} {expired expired' gone : List FactId} {fresh : List (FactId × Json)} {tags : Nat} {now : DateTime}
    {deltas : List CycleDelta} {pass pass' : ApplyPass} (behind : Behind db m expired gone fresh tags)
    (validated : Commits (deltas.foldlM (validateDelta self) expired) db expired' db')
    (committed : Commits (deltas.foldlM (applyDelta self now) pass) m pass' t) : m.events.nextId ≤ t.events.nextId := by
  induction deltas generalizing m expired gone fresh tags pass with
  | nil =>
    obtain ⟨_,rfl⟩ := commits_pure.mp committed
    exact le_refl _
  | cons delta rest ih =>
    rw [List.foldlM_cons] at validated committed
    obtain ⟨_,_,checked,laterChecks⟩ := commits_bind.mp validated
    obtain ⟨_,n,applied,laterPass⟩ := commits_bind.mp committed
    obtain ⟨rfl,valid,grown⟩ := valid_delta checked
    obtain ⟨_,evolved,_⟩ := evolved_delta behind.evolved.seq valid.gone_le applied
    have here : m.events.nextId ≤ n.events.nextId := by
      rw [evolved.next_event]
      omega
    exact here.trans (ih (behind.step evolved grown) laterChecks laterPass)

/-- A delta that is not an adjustment leaves a new vector, a new event or an expired fact. -/
theorem disturbs_delta {db s t : Db} {expired gone : List FactId} {fresh : List (FactId × Json)} {tags : Nat} {now : DateTime}
    {pass pass' : ApplyPass} {delta : CycleDelta} (behind : Behind db s expired gone fresh tags) (valid : Valid self db expired delta)
    (other : ∀ fact_id adjustment, delta ≠ .AdjustScore fact_id adjustment) (committed : Commits (applyDelta self now pass delta) s pass' t) :
    pass.to_index.length < pass'.to_index.length ∨ s.events.nextId < t.events.nextId ∨ ∃ id, db.IsActive id ∧ id ≤ t.facts.seq ∧ ¬ t.IsActive id := by
  obtain ⟨_,evolved,_⟩ := evolved_delta behind.evolved.seq valid.gone_le committed
  cases delta with
  | AdjustScore fact_id adjustment => exact absurd rfl (other fact_id adjustment)
  | AddFact nf =>
    obtain ⟨id,m,inserted,last⟩ := commits_bind.mp committed
    obtain ⟨rfl,rfl⟩ := commits_pure.mp last
    left
    simp
  | Promote fact_id provenance =>
    obtain ⟨source,m,got,checking⟩ := commits_bind.mp committed
    obtain ⟨_,m₁,sized,guarding⟩ := commits_bind.mp checking
    obtain ⟨_,m₂,present,inserting⟩ := commits_bind.mp guarding
    obtain ⟨promoted_id,m₃,inserted,recording⟩ := commits_bind.mp inserting
    obtain ⟨_,m₄,recorded,last⟩ := commits_bind.mp recording
    obtain ⟨rfl,rfl⟩ := commits_pure.mp last
    left
    simp
  | Synthesize sources new_fact =>
    obtain ⟨synth_id,m,inserted,rest⟩ := commits_bind.mp committed
    obtain ⟨last_pass,m',superseded,rest⟩ := commits_bind.mp rest
    obtain ⟨_,m'',recorded,last⟩ := commits_bind.mp rest
    obtain ⟨rfl,rfl⟩ := commits_pure.mp last
    left
    simp [(accounts_sources superseded).2]
  | TagOutcome fact_id outcome =>
    right; left
    rw [evolved.next_event]
    simp [CycleDelta.tags]
  | Quarantine fact_id reason =>
    obtain ⟨_,m,expired,rest⟩ := commits_bind.mp committed
    obtain ⟨_,m',merged,last⟩ := commits_bind.mp rest
    obtain ⟨rfl,rfl⟩ := commits_pure.mp last
    have later : m.toTables.Ages t.toTables := ages_of_makes (FactStore.makes_merge_metadata _ _ : Makes 0 0 _) merged
    obtain ⟨low,inactive⟩ := (cold_expire expired).later later fact_id (List.mem_singleton_self _)
    exact .inr (.inr ⟨fact_id,valid.1.isActive,low,inactive⟩)
  | Supersede old_id new_id =>
    obtain ⟨new_fact,m,got,rest⟩ := commits_bind.mp committed
    obtain ⟨next,m',superseded,last⟩ := commits_bind.mp rest
    obtain ⟨rfl,rfl⟩ := commits_pure.mp last
    obtain ⟨_,n,expired,linking⟩ := commits_bind.mp superseded
    obtain ⟨edge_id,n',linked,closed⟩ := commits_bind.mp linking
    obtain ⟨rfl,rfl⟩ := commits_pure.mp closed
    have later : n.toTables.Ages t.toTables := ages_of_makes (EdgeStore.makes_insert _ : Makes 0 0 _) linked
    obtain ⟨low,inactive⟩ := (cold_expire expired).later later old_id (List.mem_singleton_self _)
    exact .inr (.inr ⟨old_id,valid.1.1.isActive,low,inactive⟩)

theorem disturbs_deltas {s m : Db} {expired : List FactId} {now : DateTime} {deltas : List CycleDelta} {pass : ApplyPass}
    (validated : Commits (deltas.foldlM (validateDelta self) []) s expired s) (applied : Commits (deltas.foldlM (applyDelta self now) {}) s pass m)
    {delta : CycleDelta} (listed : delta ∈ deltas) (other : ∀ fact_id adjustment, delta ≠ .AdjustScore fact_id adjustment) :
    pass.to_index ≠ [] ∨ s.events.nextId < m.events.nextId ∨ ∃ id, s.IsActive id ∧ ¬ m.IsActive id := by
  obtain ⟨front,rest,rfl⟩ := List.append_of_mem listed
  obtain ⟨pass₁,n₁,pass₂,n₂,first,one,later⟩ := commits_foldlM_split front applied
  obtain ⟨expired₁,_,expired₂,_,before,here,after⟩ := commits_foldlM_split front validated
  obtain ⟨rfl,_,_,_,behind,_⟩ := behind_deltas (Behind.start s) before first
  obtain ⟨rfl,valid,grown⟩ := valid_delta here
  obtain ⟨_,evolved,_⟩ := evolved_delta behind.evolved.seq valid.gone_le one
  have tail := accounts_deltas later
  rcases disturbs_delta behind valid other one with indexed | recorded | ⟨id,was,low,gone⟩
  · obtain ⟨news,listed',_⟩ := tail.vectors
    left
    intro none
    rw [listed',List.append_eq_nil_iff] at none
    rw [none.1] at indexed
    exact absurd indexed (Nat.not_lt_zero _)
  · have early := events_deltas (Behind.start _) before first
    have late := events_deltas (behind.step evolved grown) after later
    exact .inr (.inl (by omega))
  · refine .inr (.inr ⟨id,was,?_⟩)
    have cold : Cold [id] n₂.toTables := fun other listed => by
      rw [List.mem_singleton.mp listed]
      exact ⟨low,gone⟩
    exact (cold.later tail.ages id (List.mem_singleton_self _)).2

/-- Validation accepts adjustments within the bounds of live facts. -/
theorem validated_adjusts {deltas : List CycleDelta} {s : Db} (adjusts : ∀ delta ∈ deltas, ∃ fact_id adjustment,
    delta = .AdjustScore fact_id adjustment ∧ ¬ adjustment.abs > MAX_ADJUSTMENT ∧ Live self s fact_id) :
    Commits (deltas.foldlM (validateDelta self) []) s [] s := by
  induction deltas with
  | nil => exact commits_pure.mpr ⟨rfl,rfl⟩
  | cons delta rest ih =>
    obtain ⟨fact_id,adjustment,rfl,bounded,live⟩ := adjusts delta List.mem_cons_self
    have required : Commits (require_active self fact_id (.UnknownFact fact_id) []) s () s :=
      require_active_commits _ live List.not_mem_nil
    have checked : Commits (validateDelta self [] (.AdjustScore fact_id adjustment)) s [] s :=
      commits_bind.mpr ⟨(),s,commits_require.mpr ⟨bounded,rfl⟩,commits_bind.mpr ⟨(),s,required,commits_pure.mpr ⟨rfl,rfl⟩⟩⟩
    rw [List.foldlM_cons]
    exact commits_bind.mpr ⟨[],s,checked,ih fun other listed => adjusts other (List.mem_cons_of_mem _ listed)⟩

theorem validated_processed {ids : List FactId} {s : Db} (held : ∀ id ∈ ids, ∃ f ∈ s.facts.rows, f.id = id ∧ f.Readable self.embed_dim) :
    Commits (ids.foldlM (fun _ id => do
      let _ ← require_fact self id (.UnknownFact id)) ()) s () s := by
  induction ids with
  | nil => exact commits_pure.mpr ⟨rfl,rfl⟩
  | cons id rest ih =>
    obtain ⟨f,member,same,readable⟩ := held id List.mem_cons_self
    have required : Commits (require_fact self id (.UnknownFact id)) s f s :=
      commits_require_fact.mpr ⟨Table.find_eq_some.mpr ⟨member,same⟩,readable,rfl⟩
    rw [List.foldlM_cons]
    exact commits_bind.mpr ⟨(),s,commits_bind.mpr ⟨f,s,required,commits_pure.mpr ⟨rfl,rfl⟩⟩,ih fun other listed => held other (List.mem_cons_of_mem _ listed)⟩

/-- Processed facts exist and read back. -/
theorem readable_processed {ids : List FactId} {s t : Db} {u : Unit} (committed : Commits (ids.foldlM (fun _ id => do
    let _ ← require_fact self id (.UnknownFact id)) ()) s u t) : ∀ id ∈ ids, ∃ f ∈ s.facts.rows, f.id = id ∧ f.Readable self.embed_dim := by
  induction ids generalizing s with
  | nil => simp
  | cons id rest ih =>
    rw [List.foldlM_cons] at committed
    obtain ⟨_,_,first,later⟩ := commits_bind.mp committed
    obtain ⟨f,_,checked,last⟩ := commits_bind.mp first
    obtain ⟨found,readable,rfl⟩ := commits_require_fact.mp checked
    obtain ⟨_,rfl⟩ := commits_pure.mp last
    obtain ⟨member,same⟩ := Table.find_eq_some.mp found
    exact List.forall_mem_cons.mpr ⟨⟨f,member,same,readable⟩,ih later⟩

/-- Validation looked at every delta from where the ones before it left off. -/
theorem checked_of_mem {s t : Db} {expired expired' : List FactId} {deltas : List CycleDelta}
    (validated : Commits (deltas.foldlM (validateDelta self) expired) s expired' t) {delta : CycleDelta} (listed : delta ∈ deltas) :
    ∃ before after, Commits (validateDelta self before delta) s after s := by
  obtain ⟨front,rest,rfl⟩ := List.append_of_mem listed
  obtain ⟨before,_,after,_,first,here,_⟩ := commits_foldlM_split front validated
  obtain ⟨rfl,_⟩ := validated_deltas first
  obtain ⟨rfl,_⟩ := valid_delta here
  exact ⟨before,after,here⟩

theorem bounded_adjust {fact_id : FactId} {adjustment : Int16} {before after : List FactId} {s t : Db}
    (checked : Commits (validateDelta self before (.AdjustScore fact_id adjustment)) s after t) :
    ¬ adjustment.abs > MAX_ADJUSTMENT ∧ Live self s fact_id := by
  obtain ⟨_,valid,_⟩ := valid_delta checked
  obtain ⟨_,_,bounded,_⟩ := commits_bind.mp checked
  exact ⟨(commits_require.mp bounded).1,valid.1⟩

/-- What was appended to the history reads back. -/
theorem historyReads_appended {codec : HistoryCodec} (reads : ∀ history, ∃ back, codec.from_str (codec.to_string history) = .ok back)
    {metadata : CycleMetadata} {s t : Db} {u : Unit} (committed : Commits (append_cycle_history codec metadata) s u t) :
    HistoryReads codec t.toTables := by
  obtain ⟨history,written⟩ := history_written committed
  intro text there
  rw [written,Config.lookup_put,Option.mem_some_iff] at there
  rw [← there]
  exact reads history

/-- After a report the history reads back. -/
theorem historyReads_report {codec : HistoryCodec} (reads : ∀ history, ∃ back, codec.from_str (codec.to_string history) = .ok back)
    {report : CycleReport} {now : DateTime} {s t : Db} {pass : ApplyPass}
    (committed : Commits (apply_cycle_deltas_atomic self codec report now) s pass t) : HistoryReads codec t.toTables := by
  obtain ⟨_,_,_,_,_,_,_,_,appended⟩ := commits_report.mp committed
  exact historyReads_appended reads appended

/-- A report without vectors of its own needs no embedding identity. -/
theorem require_identity_adjusts {report : CycleReport} {s : Db}
    (adjusts : ∀ delta ∈ report.deltas, ∃ fact_id adjustment, delta = .AdjustScore fact_id adjustment) :
    Commits (require_identity report) s () s := by
  refine commits_guarded.mpr (.inr ⟨fun brings => ?_,rfl⟩)
  obtain ⟨delta,listed,adds⟩ := List.any_eq_true.mp brings
  obtain ⟨_,_,rfl⟩ := adjusts delta listed
  cases adds

end Cycle

/-- The report can be applied, and does nothing beyond markers, watermark and history. -/
def CycleReport.Idle (self : SqliteBackend) (codec : HistoryCodec) (report : CycleReport) (now : DateTime) (t : Db) : Prop :=
  ∃ pass t', Commits (Cycle.apply_cycle_deltas_atomic self codec report now) t pass t' ∧ t.toTables.SameButMarks t'.toTables

namespace CycleReport
variable {self : SqliteBackend} {codec : HistoryCodec} {report : CycleReport} {now : DateTime} {t : Db}

/-- An idle report holds nothing but adjustments. -/
theorem Idle.adjusts (idle : report.Idle self codec now t) :
    ∀ delta ∈ report.deltas, ∃ fact_id adjustment, delta = .AdjustScore fact_id adjustment := by
  intro delta listed
  obtain ⟨pass,t',committed,alike⟩ := idle
  obtain ⟨m,m',m'',validated,_,applied,marked,dated,appended⟩ := Cycle.commits_report.mp committed
  obtain ⟨⟨expired,checked⟩,_⟩ := Cycle.valid_report validated
  have closing := Cycle.sameButMarks_closing marked dated appended
  by_contra other
  have unlike : ∀ fact_id adjustment, delta ≠ .AdjustScore fact_id adjustment := fun id amount same => other ⟨id,amount,same⟩
  rcases Cycle.disturbs_deltas checked applied listed unlike with indexed | recorded | ⟨id,was,gone⟩
  · obtain ⟨news,grown,vectors⟩ := (Cycle.accounts_deltas applied).vectors
    rw [← closing.vectors,alike.vectors,List.self_eq_append_right] at vectors
    rw [vectors] at grown
    exact indexed grown
  · have kept : m.events = t.events := by
      have late := congrArg Tables.events closing.rest
      have early := congrArg Tables.events alike.rest
      exact late.symm.trans early
    rw [kept] at recorded
    exact absurd recorded (lt_irrefl _)
  · exact gone (closing.active.mp (alike.active.mpr was))

theorem Idle.settled (idle : report.Idle self codec now t) : report.Settled self t := by
  have adjusts := idle.adjusts
  obtain ⟨pass,t',committed,alike⟩ := idle
  obtain ⟨m,m',m'',validated,_,applied,marked,dated,appended⟩ := Cycle.commits_report.mp committed
  obtain ⟨⟨expired,checked⟩,_⟩ := Cycle.valid_report validated
  refine ⟨?_,?_,?_⟩
  · intro delta listed
    obtain ⟨fact_id,adjustment,rfl⟩ := adjusts delta listed
    obtain ⟨_,_,here⟩ := Cycle.checked_of_mem checked listed
    exact ⟨fact_id,adjustment,rfl,Cycle.bounded_adjust here⟩
  · obtain ⟨_,n,first,rest⟩ := commits_bind.mp validated
    obtain ⟨rfl,_⟩ := Cycle.validated_deltas first
    exact Cycle.readable_processed rest
  · have closing := Cycle.sameButMarks_closing marked dated appended
    obtain ⟨rows,_,_⟩ := Cycle.rows_adjusts adjusts applied
    have fixed : t.facts.rows.map (Fact.unmarked ∘ Fact.readjusted self report.deltas) = t.facts.rows.map Fact.unmarked := by
      rw [← List.map_map,← rows,← closing.rows,alike.rows]
    intro f member
    exact congrArg Fact.base_importance (List.map_inj_left.mp fixed f member)

theorem Settled.adjusts_only (settled : report.Settled self t) :
    ∀ delta ∈ report.deltas, ∃ fact_id adjustment, delta = .AdjustScore fact_id adjustment := by
  intro delta listed
  obtain ⟨fact_id,adjustment,same,_⟩ := settled.adjusts delta listed
  exact ⟨fact_id,adjustment,same⟩

/-- The pass over the deltas of a settled report puts every row back as it was. -/
theorem Settled.pass (settled : report.Settled self t) (now : DateTime) :
    ∃ pass m, Commits (report.deltas.foldlM (Cycle.applyDelta self now) {}) t pass m ∧ t.toTables.SameButMarks m.toTables := by
  have lives : ∀ delta ∈ report.deltas, ∃ fact_id adjustment, delta = .AdjustScore fact_id adjustment ∧ Cycle.Live self t fact_id := by
    intro delta listed
    obtain ⟨fact_id,adjustment,same,_,live⟩ := settled.adjusts delta listed
    exact ⟨fact_id,adjustment,same,live⟩
  obtain ⟨pass,m,applied⟩ := Cycle.adjusts_commit now {} lives
  obtain ⟨rows,seq,whole⟩ := Cycle.rows_adjusts settled.adjusts_only applied
  have config : m.config = t.config := by rw [whole]
  have back : m.facts.rows = t.facts.rows := by
    calc m.facts.rows
      _ = t.facts.rows.map (Fact.readjusted self report.deltas) := rows
      _ = t.facts.rows.map (fun f => f) := List.map_congr_left fun f member => by rw [Fact.readjusted,settled.level f member]
      _ = t.facts.rows := List.map_id _
  exact ⟨pass,m,applied,⟨congrArg (List.map Fact.unmarked) back,seq,fun key _ _ => by rw [config],by rw [config,whole]⟩⟩

theorem Settled.idle (reads : Cycle.HistoryReads codec t.toTables) (settled : report.Settled self t) (now : DateTime) :
    report.Idle self codec now t := by
  have validated : Commits (Cycle.validate_report self report) t () t :=
    commits_bind.mpr ⟨[],t,Cycle.validated_adjusts settled.adjusts,Cycle.validated_processed settled.processed⟩
  obtain ⟨pass,m,applied,level⟩ := settled.pass now
  have parse : ∀ delta ∈ report.deltas, ∀ nf ∈ delta.newFact, nf.metadata.Parses := by
    intro delta listed nf brought
    obtain ⟨_,_,rfl⟩ := settled.adjusts_only delta listed
    cases brought
  have present : Commits (Cycle.require_identity report) t () t := Cycle.require_identity_adjusts settled.adjusts_only
  obtain ⟨t',committed⟩ := Cycle.report_commits validated present applied parse reads
  obtain ⟨_,m',m'',_,_,again,marked,dated,appended⟩ := Cycle.commits_report.mp committed
  obtain ⟨_,rfl⟩ := again.functional applied
  exact ⟨pass,t',committed,level.trans (Cycle.sameButMarks_closing marked dated appended)⟩

end CycleReport

/-- After some report was applied, another one, or the same once more, does nothing beyond
    markers, watermark and history if and only if it is settled. -/
theorem report_idle_iff {self : SqliteBackend} {codec : HistoryCodec} {before report : CycleReport} {earlier now : DateTime} {s t : Db}
    {pass : Cycle.ApplyPass} (reads : ∀ history, ∃ back, codec.from_str (codec.to_string history) = .ok back)
    (applied : Commits (Cycle.apply_cycle_deltas_atomic self codec before earlier) s pass t) :
    report.Idle self codec now t ↔ report.Settled self t :=
  ⟨fun idle => idle.settled,fun settled => settled.idle (Cycle.historyReads_report reads applied) now⟩

namespace Sample
open MemoryEngine.Cycle

/-- The backend with the fused operation as doubles have it, for finite numbers. -/
def stepping : SqliteBackend := { backend with
  mul_add := fun a b addend => match a,b,addend with
    | some (some p),some (some q),some (some r) => ((binary64.nearest (p * q + r) : ℚ) : WithTop ℚ)
    | _,_,_ => addend }

/-- The history texts of a first cycle and of its repetition. -/
def repeatCodec : HistoryCodec where
  from_str := fun text => .ok (if text = sampleCodec.to_string [] then [(sampleReport []).metadata] else
    [(sampleReport []).metadata,(sampleReport []).metadata])
  to_string := fun history => if history.length ≤ 1 then sampleCodec.to_string history else
    "[\x7b\"cycle_id\":1,\"ran_at\":\"2026-01-01T00:00:00Z\",\"time_window\":\x7b\"start\":\"2026-01-01T00:00:00Z\"," ++
    "\"end\":\"2026-01-01T00:00:00Z\"\x7d,\"facts_selected\":0,\"method_version\":\"m\",\"processed_ids\":[]\x7d," ++
    "\x7b\"cycle_id\":1,\"ran_at\":\"2026-01-01T00:00:00Z\",\"time_window\":\x7b\"start\":\"2026-01-01T00:00:00Z\"," ++
    "\"end\":\"2026-01-01T00:00:00Z\"\x7d,\"facts_selected\":0,\"method_version\":\"m\",\"processed_ids\":[]\x7d]"

/-- Apply the report that raises the first fact by one step. -/
def raise : Sql ApplyPass := apply_cycle_deltas_atomic stepping repeatCodec (sampleReport [.AdjustScore 1 1]) moment

theorem repeat_reads (history : List CycleMetadata) : ∃ back, repeatCodec.from_str (repeatCodec.to_string history) = .ok back := ⟨_,rfl⟩

end Sample

theorem report_idle_sample : ∃ pass t, Commits Sample.raise Sample.identified pass t ∧
    ((Cycle.sampleReport [.AdjustScore 1 1]).Idle Sample.stepping Sample.repeatCodec Sample.moment t ↔
      (Cycle.sampleReport [.AdjustScore 1 1]).Settled Sample.stepping t) := by
  have ends : Ends Sample.raise Sample.identified (fun _ _ => true) = true := by decide +kernel
  obtain ⟨pass,t,applied,_⟩ := commits_of_ends ends
  exact ⟨pass,t,applied,report_idle_iff Sample.repeat_reads applied⟩

/-- The adjustment of a report that is applied twice is added twice. -/
theorem adjusted_twice : ¬ ∀ (self : SqliteBackend) (codec : HistoryCodec) (report : CycleReport) (earlier now : DateTime) (s t : Db)
    (pass : Cycle.ApplyPass), (∀ history, ∃ back, codec.from_str (codec.to_string history) = .ok back) →
      Commits (Cycle.apply_cycle_deltas_atomic self codec report earlier) s pass t → report.Idle self codec now t := by
  intro claim
  have ends : Ends (do
      let _ ← Sample.raise
      let u ← query id
      let _ ← Sample.raise
      return u) Sample.identified
      (fun u t => decide (t.facts.rows.map Fact.base_importance ≠ u.facts.rows.map Fact.base_importance)) = true := by decide +kernel
  obtain ⟨_,t',both,apart⟩ := commits_of_ends ends
  obtain ⟨pass,_,first,rest⟩ := commits_bind.mp both
  obtain ⟨_,m,looked,rest⟩ := commits_bind.mp rest
  obtain ⟨rfl,rfl⟩ := commits_query.mp looked
  obtain ⟨_,_,second,last⟩ := commits_bind.mp rest
  obtain ⟨rfl,rfl⟩ := commits_pure.mp last
  obtain ⟨_,_,again,alike⟩ := claim _ _ _ _ Sample.moment _ _ _ Sample.repeat_reads first
  obtain ⟨_,rfl⟩ := again.functional second
  have kept := congrArg (List.map Fact.base_importance) alike.rows
  rw [List.map_map,List.map_map] at kept
  exact of_decide_eq_true apart kept

end MemoryEngine
