import MemoryEngine.CycleOutcome
import MemoryEngine.Dimensions

/-! A reconstruction at another dimension among calls that are under way. The fence is
set after the promotion has committed, and a call that has passed it carries vectors of
the old dimension. -/

namespace MemoryEngine
open Time KeyedTable Transaction FactVectors

namespace PortWrite

/-- The transactions of `add_fact`, `promote`, `apply_cycle_report` and `resolve_conflict`. -/
def Races (dim : Nat) : PortWrite → Prop
  | .insert_fact_atomic _ _ expected_dim => expected_dim = dim
  | .promote_atomic _ _ _ _ => True
  | .apply_cycle_deltas_atomic _ _ _ => True
  | .resolve_conflict_atomic _ _ _ _ _ _ => True
  | _ => False

/-- The ones that make a fact. -/
def MakesFact : PortWrite → Prop
  | .insert_fact_atomic _ _ _ => True
  | .promote_atomic _ _ _ _ => True
  | .apply_cycle_deltas_atomic _ report _ => report.deltas.any CycleDelta.makesFact = true
  | .resolve_conflict_atomic decision _ _ _ _ _ => decision = .Add ∨ decision = .Update
  | _ => False

end PortWrite

/-- A handle with one reconstruction on it and the calls that have passed its fence. -/
structure DimensionRace where
  handle : Handle
  inflight : List PortWrite
  promoted : Option PromoteOutcome

namespace DimensionRace

inductive Event where
  | enter (call : PortWrite)
  | commit (call : PortWrite)
  | fail (call : PortWrite)
  | begin_populating (name : String) (fp : EmbeddingFingerprint)
  | backfill (space : EmbeddingSpace) (rows : List (FactId × Embedding))
  | promote (populating : String)
  | fence

inductive Step (r : DimensionRace) : Event → DimensionRace → Prop where
  | enter {call : PortWrite} (races : call.Races r.handle.dim) (opened : r.handle.ctx.ensure_open = .ok ()) :
      Step r (.enter call) { r with inflight := call :: r.inflight }
  | commit {call : PortWrite} {front rest : List PortWrite} {db : Db} (passed : r.inflight = front ++ call :: rest)
      (committed : Commits (call.run r.handle.ctx.backend) r.handle.storage () db) :
      Step r (.commit call) { r with handle := { r.handle with storage := db }, inflight := front ++ rest }
  | fail {call : PortWrite} {front rest : List PortWrite} (passed : r.inflight = front ++ call :: rest) :
      Step r (.fail call) { r with inflight := front ++ rest }
  | begin_populating {name : String} {fp : EmbeddingFingerprint} {db : Db}
      (committed : Commits (EmbeddingSpaces.begin_populating ⟨name,fp,.Populating⟩) r.handle.storage () db) :
      Step r (.begin_populating name fp) { r with handle := { r.handle with storage := db } }
  | backfill {space : EmbeddingSpace} {rows : List (FactId × Embedding)} {n : Nat} {db : Db}
      (opened : r.handle.storage.findSpace space.name = some space) (sized : ∀ row ∈ rows, row.2.length = space.fingerprint.dim)
      (committed : Commits (write_backfill_batch space.name rows) r.handle.storage n db) :
      Step r (.backfill space rows) { r with handle := { r.handle with storage := db } }
  | promote {populating : String} {outcome : PromoteOutcome} {db : Db} (once : r.promoted = none)
      (committed : Commits (promote_space populating) r.handle.storage outcome db) (other : outcome.new_fingerprint.dim ≠ r.handle.dim) :
      Step r (.promote populating) { r with handle := { r.handle with storage := db }, promoted := some outcome }
  | fence {outcome : PromoteOutcome} (committed : r.promoted = some outcome) :
      Step r .fence { r with handle := { r.handle with ctx := r.handle.ctx.fenced outcome } }

/-- A race on a handle that is open at the recorded dimension. -/
inductive Run (allowed : DimensionRace → Event → Prop) : DimensionRace → Prop where
  | start {h : Handle} (run : Handle.Run Handle.Current h) (unfenced : h.ctx.reopen_required = 0) (current : h.width = h.dim) :
      Run allowed ⟨h,[],none⟩
  | step {r r' : DimensionRace} {event : Event} (before : Run allowed r) (permitted : allowed r event) (step : Step r event r') : Run allowed r'

/-- No call that makes a fact commits after the promotion. -/
def Prompt (r : DimensionRace) : Event → Prop
  | .commit call => r.promoted ≠ none → ¬ call.MakesFact
  | _ => True

/-- Every fact holds a vector of the dimension of the active space. -/
def Served (r : DimensionRace) : Prop :=
  ∀ f ∈ r.handle.storage.facts.rows, ∀ space, r.handle.storage.activeSpace = some space → f.embedding.length = space.fingerprint.dim

/-- What a prompt run keeps. -/
structure Sound (r : DimensionRace) : Prop where
  uniform : r.handle.Uniform
  races : ∀ call ∈ r.inflight, call.Races r.handle.dim
  before : r.promoted = none → r.handle.ctx.reopen_required = 0 ∧ r.handle.width = r.handle.dim
  after : r.promoted ≠ none → ∃ space, r.handle.storage.activeSpace = some space ∧ space.fingerprint.dim ≠ r.handle.dim

end DimensionRace

namespace PortWrite
variable {dim : Nat} {call : PortWrite}

theorem Races.ordinary (races : call.Races dim) : ¬ call.OnSpaces := by
  cases call <;> first | exact id | exact absurd races id

theorem Races.stamps (races : call.Races dim) : call.Stamps := by
  cases call <;> trivial

theorem Races.expected {self : SqliteBackend} (races : call.Races self.embed_dim) : call.expected_dim self = self.embed_dim := by
  cases call <;> first | rfl | exact races | exact absurd races id

variable {self : SqliteBackend} {s m t : Db}

/-- A fact that goes in after the beginning is new at the end. -/
theorem inserted_new {fact : NewFact} {id : FactId} (grown : s.facts.seq ≤ m.facts.seq) (committed : Commits (FactStore.insert self fact) m id t) :
    ∃ f ∈ t.facts.rows, s.facts.seq < Row.key f := by
  obtain ⟨_,importance,_,_,written⟩ := FactStore.commits_insert.mp committed
  refine ⟨FactStore.newRow self fact importance m.facts.nextId,?_,?_⟩
  · rw [written,Table.mem_insert]
    exact .inr rfl
  · exact lt_of_le_of_lt grown (Int.lt_succ m.facts.seq)

theorem new_promote_atomic {fact : NewFact} {scope_path : Option String} {source_fact_ids : List FactId} {provenance : PromotionProvenance}
    {result : PromotionResult × List Int} (committed : Commits (Ingest.promote_atomic self fact scope_path source_fact_ids provenance) s result t) :
    ∃ f ∈ t.facts.rows, s.facts.seq < Row.key f := by
  obtain ⟨_,_,present,rest⟩ := commits_bind.mp committed
  obtain ⟨_,rfl⟩ := EmbeddingMeta.commits_require_present.mp present
  obtain ⟨scope,m,ensured,rest⟩ := commits_bind.mp rest
  obtain ⟨id,m',inserted,rest⟩ := commits_bind.mp rest
  obtain ⟨lineage_id,m'',recorded,last⟩ := commits_bind.mp rest
  obtain ⟨_,rfl⟩ := commits_pure.mp last
  have scopes : Makes 0 0 (Ingest.promotedScope scope_path) := by
    cases scope_path with
    | none => exact makes_pure _
    | some path => exact makes_bind (ScopeStore.makes_ensure_path path) fun _ => makes_pure _
  have grown := (Tables.Writes.of_changes (scopes _ _ _ ensured)).facts.seq
  have same : t.facts = m'.facts := LineageStore.leaves_insert Tables.facts (fun _ _ => rfl) _ _ _ _ _ recorded
  rw [same]
  exact inserted_new grown inserted

theorem new_insertLinked {old_id : FactId} {new_fact : NewFact} {relation : String} {weight : F64} {now : DateTime}
    {ids : Option FactId × Option Int} (grown : s.facts.seq ≤ m.facts.seq)
    (committed : Commits (Resolve.insertLinked self old_id new_fact relation weight now) m ids t) : ∃ f ∈ t.facts.rows, s.facts.seq < Row.key f := by
  obtain ⟨id,m',inserted,rest⟩ := commits_bind.mp committed
  obtain ⟨edge_id,m'',linked,last⟩ := commits_bind.mp rest
  obtain ⟨_,rfl⟩ := commits_pure.mp last
  obtain ⟨_,_,_,written⟩ := EdgeStore.commits_insert.mp linked
  rw [written]
  exact inserted_new grown inserted

end PortWrite

namespace Cycle
variable {self : SqliteBackend}

theorem created_delta {now : DateTime} {pass pass' : ApplyPass} {delta : CycleDelta} {s t : Db} (makes : delta.makesFact = true)
    (committed : Commits (applyDelta self now pass delta) s pass' t) : ∃ id, id ∈ pass'.created := by
  cases delta with
  | AddFact nf =>
    obtain ⟨id,_,_,last⟩ := commits_bind.mp committed
    obtain ⟨rfl,_⟩ := commits_pure.mp last
    exact ⟨id,by simp [ApplyPass.created]⟩
  | Promote fact_id provenance =>
    obtain ⟨_,_,_,rest⟩ := commits_bind.mp committed
    obtain ⟨_,_,_,rest⟩ := commits_bind.mp rest
    obtain ⟨_,_,_,rest⟩ := commits_bind.mp rest
    obtain ⟨id,_,_,rest⟩ := commits_bind.mp rest
    obtain ⟨_,_,_,last⟩ := commits_bind.mp rest
    obtain ⟨rfl,_⟩ := commits_pure.mp last
    exact ⟨id,by simp [ApplyPass.created]⟩
  | Synthesize sources new_fact =>
    obtain ⟨id,_,_,rest⟩ := commits_bind.mp committed
    obtain ⟨_,_,_,rest⟩ := commits_bind.mp rest
    obtain ⟨_,_,_,last⟩ := commits_bind.mp rest
    obtain ⟨rfl,_⟩ := commits_pure.mp last
    exact ⟨id,by simp [ApplyPass.created]⟩
  | _ => cases makes

/-- A report with a delta that makes a fact leaves a new fact. -/
theorem new_report {codec : HistoryCodec} {report : CycleReport} {now : DateTime} {s t : Db} {pass : ApplyPass}
    (makes : report.deltas.any CycleDelta.makesFact = true) (committed : Commits (apply_cycle_deltas_atomic self codec report now) s pass t) :
    ∃ f ∈ t.facts.rows, s.facts.seq < Row.key f := by
  obtain ⟨m,m',m'',validated,_,applied,marked,dated,appended⟩ := commits_report.mp committed
  obtain ⟨⟨expired,checked⟩,_⟩ := valid_report validated
  obtain ⟨delta,listed,makes⟩ := List.any_eq_true.mp makes
  obtain ⟨front,rest,split⟩ := List.append_of_mem listed
  rw [split] at checked applied
  obtain ⟨_,_,_,_,before,here,later⟩ := commits_foldlM_split front checked
  obtain ⟨pass₁,m₁,pass₂,m₂,first,one,last⟩ := commits_foldlM_split front applied
  obtain ⟨rfl,gone,fresh,tags,behind,notes⟩ := behind_deltas (Behind.start s) before first
  obtain ⟨rfl,valid,grown⟩ := valid_delta here
  obtain ⟨fresh₁,evolved,noted⟩ := evolved_delta behind.evolved.seq valid.gone_le one
  obtain ⟨_,gone',fresh',tags',after,_⟩ := behind_deltas (behind.step evolved grown) later last
  obtain ⟨id,created⟩ := created_delta makes one
  -- the fact is of this delta or of an earlier one
  have among : id ∈ ((([] ++ fresh) ++ fresh₁) ++ fresh').map Prod.fst := by
    rw [List.map_append,List.map_append]
    refine List.mem_append_left _ ?_
    rcases (noted.created id).mp created with early | new
    · rcases (notes.created id).mp early with none | old
      · cases none
      · exact List.mem_append_left _ old
    · exact List.mem_append_right _ new
  obtain ⟨entry,inside,rfl⟩ := List.mem_map.mp among
  obtain ⟨above,f,member,same,_⟩ := after.evolved.made entry inside
  obtain ⟨f',there,named⟩ := has_mark ⟨f,member,same⟩ marked
  refine ⟨f',?_,?_⟩
  · have kept : t.facts = m'.facts := by
      rw [leaves_append_cycle_history _ _ m'' () t appended,commits_execute.mp dated]
    rw [kept]
    exact there
  · rw [named]
    exact above

end Cycle

namespace PortWrite
variable {self : SqliteBackend} {dim : Nat} {call : PortWrite} {s t : Db}

/-- A racing call that makes a fact leaves a new one. -/
theorem Races.new (races : call.Races dim) (makes : call.MakesFact) (committed : Commits (call.run self) s () t) :
    ∃ f ∈ t.facts.rows, s.facts.seq < Row.key f := by
  cases call with
  | insert_fact_atomic fact fingerprint expected_dim =>
    obtain ⟨id,m,inserted,last⟩ := commits_bind.mp committed
    obtain ⟨_,rfl⟩ := commits_pure.mp last
    obtain ⟨stored,m',recorded,stored⟩ := commits_bind.mp inserted
    have grown := (Tables.Writes.of_changes (EmbeddingMeta.makes_record_if_absent fingerprint _ _ _ recorded : Changes 0 _ _ _)).facts.seq
    exact inserted_new grown stored
  | promote_atomic fact scope_path source_fact_ids provenance =>
    obtain ⟨result,m,promoted,last⟩ := commits_bind.mp committed
    obtain ⟨_,rfl⟩ := commits_pure.mp last
    exact new_promote_atomic promoted
  | apply_cycle_deltas_atomic codec report now =>
    obtain ⟨pass,m,applied,last⟩ := commits_bind.mp committed
    obtain ⟨_,rfl⟩ := commits_pure.mp last
    exact Cycle.new_report makes applied
  | resolve_conflict_atomic decision old_id new_fact relation weight now =>
    obtain ⟨ids,m,resolved,last⟩ := commits_bind.mp committed
    obtain ⟨_,rfl⟩ := commits_pure.mp last
    rcases makes with rfl | rfl
    · obtain ⟨_,_,asked,gating⟩ := commits_bind.mp resolved
      obtain ⟨rfl,rfl⟩ := FactStore.commits_is_active.mp asked
      obtain ⟨_,_,gated,linked⟩ := commits_bind.mp gating
      obtain ⟨_,rfl⟩ := commits_require.mp gated
      exact new_insertLinked (le_refl _) linked
    · obtain ⟨_,m',expired,linked⟩ := commits_bind.mp resolved
      have grown := (Tables.Writes.of_changes (Resolve.makes_cascade_expire old_id now _ _ _ expired : Changes 0 0 _ _)).facts.seq
      exact new_insertLinked grown linked
  | _ => exact absurd races id

/-- One that makes no fact could be made through a handle of any dimension. -/
theorem Races.quiet (races : call.Races dim) (none : ¬ call.MakesFact) : ∀ dim, Makes dim 0 (call.run self) := by
  intro dim
  cases call with
  | insert_fact_atomic fact fingerprint expected_dim => exact absurd trivial none
  | promote_atomic fact scope_path source_fact_ids provenance => exact absurd trivial none
  | apply_cycle_deltas_atomic codec report now =>
    have without : ∀ delta ∈ report.deltas, delta.makesFact = false := by
      intro delta listed
      rw [Bool.eq_false_iff]
      exact fun one => none (List.any_eq_true.mpr ⟨delta,listed,one⟩)
    refine makes_void (makes_bind (Cycle.makes_validate_report self report) fun _ => ?_)
    refine makes_bind (makes_guarded EmbeddingMeta.makes_require_present) fun _ => ?_
    refine makes_bind (makes_foldlM_mem (fun pass delta listed => ?_) _) (Cycle.makes_closing codec report now)
    exact Cycle.makes_applyDelta_quiet self now pass (without delta listed)
  | resolve_conflict_atomic decision old_id new_fact relation weight now =>
    cases decision with
    | Noop => exact makes_void (makes_pure _)
    | Delete => exact makes_void (makes_bind (Resolve.makes_cascade_expire _ _) fun _ => makes_pure _)
    | Add => exact absurd (.inl rfl) none
    | Update => exact absurd (.inr rfl) none
  | _ => exact absurd races id

end PortWrite

theorem MemoryCtx.fenced_backend (ctx : MemoryCtx) (outcome : PromoteOutcome) : (ctx.fenced outcome).backend = ctx.backend := by
  unfold fenced
  split <;> rfl

namespace DimensionRace
variable {r r' : DimensionRace} {event : Event}

theorem sound_commit (sound : r.Sound) {call : PortWrite} {front rest : List PortWrite} {db : Db} (prompt : r.Prompt (.commit call))
    (passed : r.inflight = front ++ call :: rest) (committed : Commits (call.run r.handle.ctx.backend) r.handle.storage () db) :
    Sound { r with handle := { r.handle with storage := db }, inflight := front ++ rest } := by
  have races := sound.races call (passed ▸ List.mem_append_right _ List.mem_cons_self)
  have guards := PortWrite.guards r.handle.ctx.backend races.ordinary races.stamps _ _ _ committed
  have kept := Handle.width_write races.ordinary races.expected committed
  refine ⟨Handle.uniform_write sound.uniform races.ordinary races.expected guards ?_ committed,?_,?_,?_⟩
  · intro f member high
    by_cases first : r.promoted = none
    · exact (sound.before first).2.symm
    · have quiet : ∀ dim, Makes dim 0 (call.run r.handle.ctx.backend) := races.quiet (prompt first)
      have low := Tables.Writes.quiet_facts (fun dim => ⟨0,.of_changes (quiet dim _ _ _ committed)⟩) f member
      exact absurd high (not_lt.mpr low)
  · intro other listed
    refine sound.races other ?_
    rw [passed]
    rcases List.mem_append.mp listed with early | late
    · exact List.mem_append_left _ early
    · exact List.mem_append_right _ (List.mem_cons_of_mem _ late)
  · intro first
    obtain ⟨unfenced,current⟩ := sound.before first
    exact ⟨unfenced,kept.trans current⟩
  · intro late
    obtain ⟨space,active,apart⟩ := sound.after late
    have writes := Tables.Writes.of_changes (PortWrite.makes _ races.ordinary _ _ _ committed)
    have recorded : r.handle.storage.activeSpace ≠ none := active ▸ Option.some_ne_none space
    exact ⟨space,(writes.identity recorded).trans active,apart⟩

theorem sound_step (sound : r.Sound) (prompt : r.Prompt event) (step : Step r event r') : r'.Sound := by
  cases step with
  | enter races opened => exact { sound with races := List.forall_mem_cons.mpr ⟨races,sound.races⟩ }
  | commit passed committed => exact sound_commit sound prompt passed committed
  | fail passed =>
    refine { sound with races := fun other listed => sound.races other ?_ }
    rw [passed]
    rcases List.mem_append.mp listed with early | late
    · exact List.mem_append_left _ early
    · exact List.mem_append_right _ (List.mem_cons_of_mem _ late)
  | begin_populating committed =>
    have active := Handle.activeSpace_begin_populating committed
    have kept : Handle.width { r.handle with storage := _ } = r.handle.width := Handle.width_congr active rfl
    refine ⟨(Handle.uniform_begin_populating sound.uniform committed).1,sound.races,?_,?_⟩
    · intro first
      exact ⟨(sound.before first).1,kept.trans (sound.before first).2⟩
    · intro late
      obtain ⟨space,here,apart⟩ := sound.after late
      exact ⟨space,active.trans here,apart⟩
  | backfill opened sized committed =>
    obtain ⟨uniform,active,_⟩ := Handle.uniform_backfill sound.uniform opened sized committed
    have kept : Handle.width { r.handle with storage := _ } = r.handle.width := Handle.width_congr active rfl
    refine ⟨uniform,sound.races,?_,?_⟩
    · intro first
      exact ⟨(sound.before first).1,kept.trans (sound.before first).2⟩
    · intro late
      obtain ⟨space,here,apart⟩ := sound.after late
      exact ⟨space,active.trans here,apart⟩
  | promote once committed other =>
    obtain ⟨space,_,identity,swaps⟩ := Handle.swaps_promote sound.uniform committed
    obtain ⟨served,active,dims⟩ := swaps.active
    refine ⟨Handle.uniform_swapped swaps _,sound.races,fun none => absurd none (Option.some_ne_none _),fun _ => ⟨served,active,?_⟩⟩
    rw [dims,← identity]
    exact other
  | @fence outcome committed =>
    have dims : Handle.dim ⟨r.handle.storage,r.handle.ctx.fenced outcome⟩ = r.handle.dim :=
      congrArg SqliteBackend.embed_dim (MemoryCtx.fenced_backend r.handle.ctx outcome)
    have kept : Handle.width ⟨r.handle.storage,r.handle.ctx.fenced outcome⟩ = r.handle.width := Handle.width_congr rfl dims
    refine ⟨⟨?_,sound.uniform.vectors,sound.uniform.stamped⟩,?_,?_,?_⟩
    · rw [kept]
      exact sound.uniform.facts
    · rw [dims]
      exact sound.races
    · intro none
      change r.promoted = .none at none
      rw [none] at committed
      cases committed
    · rw [dims]
      exact sound.after

theorem Run.sound (run : Run Prompt r) : r.Sound := by
  induction run with
  | start run unfenced current =>
    exact ⟨run.sound.toUniform,fun _ listed => absurd listed List.not_mem_nil,fun _ => ⟨unfenced,current⟩,fun late => absurd rfl late⟩
  | step before prompt step ih => exact sound_step ih prompt step

/-- Every fact has a vector of the active dimension all through a run in which no call
    that makes a fact commits after the promotion; and after such a run, a commit keeps
    it so exactly when it is not of that kind. -/
theorem served_iff_prompt {r : DimensionRace} (run : Run Prompt r) : r.Served ∧
    ∀ (r' : DimensionRace) (call : PortWrite), Step r (.commit call) r' → (r'.Served ↔ r.Prompt (.commit call)) := by
  have served {r : DimensionRace} (sound : r.Sound) : r.Served :=
    fun f member space active => (sound.uniform.facts f member).trans (Handle.width_of_active active)
  refine ⟨served run.sound,fun r' call step => ⟨?_,fun prompt => served (sound_step run.sound prompt step)⟩⟩
  intro serves late makes
  cases step with
  | commit passed committed =>
    have races := run.sound.races call (passed ▸ List.mem_append_right _ List.mem_cons_self)
    obtain ⟨space,active,apart⟩ := run.sound.after late
    have writes := Tables.Writes.of_changes (PortWrite.makes _ races.ordinary _ _ _ committed)
    have recorded : r.handle.storage.activeSpace ≠ none := active ▸ Option.some_ne_none space
    -- the new fact has a vector of the dimension of the handle
    obtain ⟨f,member,high⟩ := races.new makes committed
    have old := writes.fresh f member high
    have new := serves f member space ((writes.identity recorded).trans active)
    exact apart (new.symm.trans old)

end DimensionRace

namespace Sample

def wisdom : PortWrite := .promote_atomic (newFact "b") none [] ⟨0,0,moment,moment,F64.ofRat 1,"v1",[]⟩

/-- A handle on a store without facts. -/
def race : DimensionRace := ⟨⟨Db.fresh,ctx⟩,[],none⟩

end Sample

namespace DimensionRace

/-- The first fact is added during the race. -/
theorem first_added (allowed : DimensionRace → Event → Prop) {s : Db} (added : Commits (Sample.first.run Sample.backend) Db.fresh () s)
    (entering : ∀ r call, allowed r (.enter call)) (committing : allowed { Sample.race with inflight := [Sample.first] } (.commit Sample.first)) :
    Run allowed { Sample.race with inflight := [Sample.first] } ∧
      Step { Sample.race with inflight := [Sample.first] } (.commit Sample.first) ⟨⟨s,Sample.ctx⟩,[],none⟩ ∧ Run allowed ⟨⟨s,Sample.ctx⟩,[],none⟩ := by
  have empty : Run allowed Sample.race := .start (.fresh rfl) rfl rfl
  have enters : Step Sample.race (.enter Sample.first) { Sample.race with inflight := [Sample.first] } := .enter rfl rfl
  have passed : ({ Sample.race with inflight := [Sample.first] } : DimensionRace).inflight = [] ++ Sample.first :: [] := rfl
  have entered := empty.step (entering _ _) enters
  exact ⟨entered,.commit passed added,entered.step committing (.commit passed added)⟩

theorem served_iff_prompt_sample : ∃ r r', Run Prompt r ∧ Step r (.commit Sample.first) r' ∧ r.Served ∧ (r'.Served ↔ r.Prompt (.commit Sample.first)) := by
  have ran : Ends (Sample.first.run Sample.backend) Db.fresh (fun _ _ => true) = true := by decide +kernel
  obtain ⟨_,db,added,_⟩ := commits_of_ends ran
  have prompt : Prompt { Sample.race with inflight := [Sample.first] } (.commit Sample.first) := fun late => absurd rfl late
  obtain ⟨entered,commits,_⟩ := first_added Prompt added (fun _ _ => trivial) prompt
  exact ⟨_,_,entered,commits,(served_iff_prompt entered).1,(served_iff_prompt entered).2 _ _ commits⟩

/-- A promotion of a fact that passed the fence commits behind the new dimension. -/
theorem straggler_served : ¬ ∀ r, Run (fun _ _ => True) r → r.Served := by
  intro claim
  have ran : Ends (Sample.first.run Sample.backend) Db.fresh (fun _ s => Ends (EmbeddingSpaces.begin_populating Sample.wideSpace) s fun _ s₁ =>
      Ends (write_backfill_batch "w_p_2" Sample.wideRows) s₁ fun _ s₂ => Ends (promote_space "w_p_2") s₂ fun outcome s₃ =>
        Ends (Sample.wisdom.run Sample.backend) s₃ fun _ s₄ =>
          decide (s₁.findSpace "w_p_2" = some Sample.wideSpace) && decide (outcome.new_fingerprint = Sample.wide) &&
            decide (s₄.activeSpace.map (fun space => space.fingerprint.dim) = some 2) &&
              s₄.facts.rows.any fun f => f.embedding.length == 1) = true := by
    decide +kernel
  obtain ⟨_,s,added,ran⟩ := commits_of_ends ran
  obtain ⟨_,s₁,begun,ran⟩ := commits_of_ends ran
  obtain ⟨n,s₂,filled,ran⟩ := commits_of_ends ran
  obtain ⟨outcome,s₃,promoted,ran⟩ := commits_of_ends ran
  obtain ⟨_,s₄,late,ran⟩ := commits_of_ends ran
  simp only [Bool.and_eq_true,decide_eq_true_eq] at ran
  obtain ⟨⟨⟨found,identity⟩,dims⟩,left⟩ := ran
  obtain ⟨_,_,run⟩ := first_added (fun _ _ => True) added (fun _ _ => trivial) trivial
  have enters : Step ⟨⟨s,Sample.ctx⟩,[],none⟩ (.enter Sample.wisdom) ⟨⟨s,Sample.ctx⟩,[Sample.wisdom],none⟩ := .enter trivial rfl
  have begins : Step ⟨⟨s,Sample.ctx⟩,[Sample.wisdom],none⟩ (.begin_populating "w_p_2" Sample.wide) ⟨⟨s₁,Sample.ctx⟩,[Sample.wisdom],none⟩ :=
    .begin_populating begun
  have sized : ∀ row ∈ Sample.wideRows, row.2.length = Sample.wideSpace.fingerprint.dim := by decide
  have fills : Step ⟨⟨s₁,Sample.ctx⟩,[Sample.wisdom],none⟩ (.backfill Sample.wideSpace Sample.wideRows) ⟨⟨s₂,Sample.ctx⟩,[Sample.wisdom],none⟩ :=
    .backfill found sized filled
  have other : outcome.new_fingerprint.dim ≠ Handle.dim ⟨s₂,Sample.ctx⟩ := by
    rw [identity]
    change (2 : Nat) ≠ 1
    decide
  have swaps : Step ⟨⟨s₂,Sample.ctx⟩,[Sample.wisdom],none⟩ (.promote "w_p_2") ⟨⟨s₃,Sample.ctx⟩,[Sample.wisdom],some outcome⟩ :=
    .promote rfl promoted other
  have passed : (⟨⟨s₃,Sample.ctx⟩,[Sample.wisdom],some outcome⟩ : DimensionRace).inflight = [] ++ Sample.wisdom :: [] := rfl
  have commits : Step ⟨⟨s₃,Sample.ctx⟩,[Sample.wisdom],some outcome⟩ (.commit Sample.wisdom) ⟨⟨s₄,Sample.ctx⟩,[] ++ [],some outcome⟩ :=
    .commit passed late
  have reached := ((((run.step trivial enters).step trivial begins).step trivial fills).step trivial swaps).step trivial commits
  obtain ⟨f,member,narrow⟩ := List.any_eq_true.mp left
  obtain ⟨space,active,wide⟩ := Option.map_eq_some_iff.mp dims
  have served := claim _ reached f member space active
  rw [beq_iff_eq.mp narrow,wide] at served
  omega

end DimensionRace
end MemoryEngine
