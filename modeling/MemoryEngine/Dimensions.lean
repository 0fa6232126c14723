import MemoryEngine.Dump
import MemoryEngine.Reconstruct
import MemoryEngine.Stamping

/-! Dimensions over a run. A promotion rewrites the vectors of the facts and leaves
those of the summaries as they are, so a store that is reopened at another dimension
serves its facts but not always its summaries. -/

namespace MemoryEngine
open Time KeyedTable Transaction FactVectors

/-- The vectors that a handle decodes at its own dimension have it. -/
structure Tables.Sized (dim : Nat) (t : Tables) : Prop where
  facts : ∀ f ∈ t.facts.rows, f.embedding.length = dim
  summaries : ∀ s ∈ t.summaries.rows, s.embedding.length = dim

/-- Every column reads back but for the vectors. -/
structure Tables.Parses (t : Tables) : Prop where
  facts : ∀ f ∈ t.facts.rows, f.Readable f.embedding.length
  edges : ∀ e ∈ t.edges.rows, e.Readable
  summaries : ∀ s ∈ t.summaries.rows, s.created_at.Readable
  events : ∀ e ∈ t.events.rows, e.Readable
  lineage : ∀ l ∈ t.lineage.rows, l.Readable

/-- A store and the handle on it. -/
structure Handle where
  storage : Db
  ctx : MemoryCtx

namespace Handle

/-- The dimension that was given when the handle was opened. -/
def dim (h : Handle) : Nat := h.ctx.backend.embed_dim

/-- The dimension of the recorded identity, else that of the handle. -/
def width (h : Handle) : Nat := (h.storage.activeSpace.map fun space => space.fingerprint.dim).getD h.dim

/-- The readers at the dimension of the handle get through every vector. -/
structure Reads (h : Handle) : Prop where
  facts : ∀ f ∈ h.storage.facts.rows, f.embedding.length = h.dim
  summaries : ∀ s ∈ h.storage.summaries.rows, s.embedding.length = h.dim
  list_by_level : ∀ level, (∀ s ∈ h.storage.summaries.rows, s.level = level → s.created_at.Readable) →
    ∃ rows, Commits (SummaryStore.list_by_level h.dim level) h.storage rows h.storage
  for_each : (∀ s ∈ h.storage.summaries.rows, s.created_at.Readable) → ∃ rows, Commits (SummaryStore.for_each h.dim) h.storage rows h.storage
  dump : h.storage.Parses → ∀ created_at, ∃ snapshot, Commits (stream_snapshot created_at h.dim) h.storage snapshot h.storage

/-- What an operation has seen to before it makes a call. The operations that write
    vectors are fenced and name the dimension of the handle; a file is bootstrapped only
    after the identity is recorded; no operation inserts a lone fact or summary. -/
structure Issues (h : Handle) (call : PortWrite) : Prop where
  ordinary : ¬ call.OnSpaces
  opened : call.Embeds → h.ctx.ensure_open = .ok ()
  expected : call.expected_dim h.ctx.backend = h.dim
  stamps : call.Stamps ∨ (∃ fact, call = .insert_or_reinforce_fact fact) ∧ h.storage.activeSpace ≠ none

/-- A step of the engine, by a call, a part of a reconstruction or an opening. -/
inductive Action where
  | write (call : PortWrite)
  | begin_populating (name : String) (fp : EmbeddingFingerprint)
  | backfill (space : EmbeddingSpace) (rows : List (FactId × Embedding))
  | promote (populating : String)
  | reopen (ctx : MemoryCtx)

inductive Step (h : Handle) : Action → Handle → Prop where
  | write {call : PortWrite} {db : Db} (issued : h.Issues call) (committed : Commits (call.run h.ctx.backend) h.storage () db) :
      Step h (.write call) { h with storage := db }
  | begin_populating {name : String} {fp : EmbeddingFingerprint} {db : Db}
      (committed : Commits (EmbeddingSpaces.begin_populating ⟨name,fp,.Populating⟩) h.storage () db) :
      Step h (.begin_populating name fp) { h with storage := db }
  | backfill {space : EmbeddingSpace} {rows : List (FactId × Embedding)} {n : Nat} {db : Db}
      (opened : h.storage.findSpace space.name = some space) (sized : ∀ row ∈ rows, row.2.length = space.fingerprint.dim)
      (committed : Commits (write_backfill_batch space.name rows) h.storage n db) : Step h (.backfill space rows) { h with storage := db }
  | promote {populating : String} {outcome : PromoteOutcome} {db : Db}
      (committed : Commits (promote_space populating) h.storage outcome db) : Step h (.promote populating) ⟨db,h.ctx.fenced outcome⟩
  | reopen {ctx : MemoryCtx} (unfenced : ctx.reopen_required = 0)
      (validated : ∀ space, h.storage.activeSpace = some space → space.fingerprint.dim = ctx.backend.embed_dim) :
      Step h (.reopen ctx) { h with ctx := ctx }

/-- A run from an empty store whose actions are all allowed where they are taken. -/
inductive Run (allowed : Handle → Action → Prop) : Handle → Prop where
  | fresh {ctx : MemoryCtx} (unfenced : ctx.reopen_required = 0) : Run allowed ⟨Db.fresh,ctx⟩
  | step {h h' : Handle} {action : Action} (before : Run allowed h) (permitted : allowed h action) (step : Step h action h') : Run allowed h'

/-- A promotion to dimension zero, which the fence cannot tell from none, is not followed
    by vectors of the old handle. -/
def Current (h : Handle) : Action → Prop
  | .write call => call.Embeds → h.width = 0 → h.dim = 0
  | _ => True

/-- Besides, a promotion to another dimension finds no summary. -/
def Calm (h : Handle) : Action → Prop
  | .promote populating => ∀ space, h.storage.findSpace populating = some space → space.fingerprint.dim ≠ h.width → h.storage.summaries.rows = []
  | action => h.Current action

/-- The facts are of the recorded dimension and each vector of that of its space. -/
structure Uniform (h : Handle) : Prop where
  facts : ∀ f ∈ h.storage.facts.rows, f.embedding.length = h.width
  vectors : h.storage.VectorsSized
  stamped : h.storage.Stamped

/-- Besides, a handle that is not fenced is of the recorded dimension. -/
structure Sound (h : Handle) : Prop extends Uniform h where
  opened : h.ctx.reopen_required = 0 → h.width = h.dim ∨ h.width = 0

/-- What a calm run keeps. -/
structure Fits (h : Handle) : Prop extends Sound h where
  summaries : ∀ s ∈ h.storage.summaries.rows, s.embedding.length = h.width

variable {h h' : Handle}

theorem Calm.current {action : Action} (calm : h.Calm action) : h.Current action := by
  cases action with
  | promote populating => trivial
  | _ => exact calm

theorem width_of_active {space : EmbeddingSpace} (active : h.storage.activeSpace = some space) : h.width = space.fingerprint.dim := by
  rw [width,active]
  rfl

theorem width_congr (spaces : h'.storage.activeSpace = h.storage.activeSpace) (dims : h'.dim = h.dim) : h'.width = h.width := by
  rw [width,width,spaces,dims]

/-- A call records an identity of the dimension that counted before. -/
theorem width_write {db : Db} {call : PortWrite} (ordinary : ¬ call.OnSpaces) (expected : call.expected_dim h.ctx.backend = h.dim)
    (committed : Commits (call.run h.ctx.backend) h.storage () db) : width { h with storage := db } = h.width := by
  have writes := Tables.Writes.of_changes (PortWrite.makes h.ctx.backend ordinary _ _ _ committed)
  rcases writes.spaces with same | ⟨none,fp,sized,stamped⟩
  · exact width_congr (activeSpace_congr same) rfl
  · have recorded : (db : Db).activeSpace = some ⟨EmbeddingSpace.DEFAULT_NAME,fp,.Active⟩ := activeSpace_stamped none stamped
    rw [width_of_active recorded,width,none]
    exact sized.trans expected

/-- New facts are of the dimension of the handle, so they have to find it recorded. -/
theorem uniform_write (uniform : h.Uniform) {db : Db} {call : PortWrite} (ordinary : ¬ call.OnSpaces)
    (expected : call.expected_dim h.ctx.backend = h.dim) (guards : h.storage.toTables.Guarded db.toTables)
    (current : ∀ f ∈ db.facts.rows, h.storage.facts.seq < Row.key f → h.dim = h.width)
    (committed : Commits (call.run h.ctx.backend) h.storage () db) : Uniform { h with storage := db } := by
  have writes := Tables.Writes.of_changes (PortWrite.makes h.ctx.backend ordinary _ _ _ committed)
  refine ⟨?_,?_,guards.stamped uniform.stamped⟩
  · rw [width_write ordinary expected committed]
    intro f member
    by_cases low : Row.key f ≤ h.storage.facts.seq
    · obtain ⟨before,held,_,same⟩ := writes.facts.old f member low
      exact (congrArg List.length same).trans (uniform.facts before held)
    · exact (writes.fresh f member (not_le.mp low)).trans (current f member (not_le.mp low))
  · intro v held space member named
    rcases writes.spaces with same | ⟨_,fp,_,stamped⟩
    · exact uniform.vectors v (writes.vectors held) space (same ▸ member) named
    · obtain ⟨owner,here,called⟩ := h.storage.foreign.vector_space v (writes.vectors held)
      have listed : owner ∈ db.embedding_spaces := stamped ▸ List.mem_append_left _ here
      rw [space_name_unique db member listed (named.trans called.symm)]
      exact uniform.vectors v (writes.vectors held) owner here called

theorem guarded_write {db : Db} {call : PortWrite} (issued : h.Issues call) (committed : Commits (call.run h.ctx.backend) h.storage () db) :
    h.storage.toTables.Guarded db.toTables := by
  rcases issued.stamps with stamps | ⟨_,recorded⟩
  · exact PortWrite.guards h.ctx.backend issued.ordinary stamps _ _ _ committed
  · have writes := Tables.Writes.of_changes (PortWrite.makes h.ctx.backend issued.ordinary _ _ _ committed)
    exact .of_recorded (writes.identity recorded ▸ recorded)

/-- A handle that may write vectors is of the recorded dimension. -/
theorem Sound.dim_eq_width (sound : h.Sound) {call : PortWrite} (current : h.Current (.write call)) (issued : h.Issues call)
    (embeds : call.Embeds) : h.dim = h.width := by
  have unfenced : h.ctx.reopen_required = 0 := by
    by_contra fenced
    have gate := issued.opened embeds
    rw [MemoryCtx.ensure_open,if_neg fenced] at gate
    cases gate
  rcases sound.opened unfenced with same | zero
  · exact same.symm
  · exact (current embeds zero).trans zero.symm

theorem sound_write (sound : h.Sound) {db : Db} {call : PortWrite} (current : h.Current (.write call)) (issued : h.Issues call)
    (committed : Commits (call.run h.ctx.backend) h.storage () db) : Sound { h with storage := db } := by
  refine ⟨uniform_write sound.toUniform issued.ordinary issued.expected (guarded_write issued committed) ?_ committed,?_⟩
  · intro f member high
    by_cases embeds : call.Embeds
    · exact sound.dim_eq_width current issued embeds
    · have quiet := PortWrite.quiet h.ctx.backend issued.ordinary embeds committed
      exact absurd high (not_lt.mpr (Tables.Writes.quiet_facts quiet f member))
  · rw [width_write issued.ordinary issued.expected committed]
    exact sound.opened

theorem fits_write (fits : h.Fits) {db : Db} {call : PortWrite} (calm : h.Calm (.write call)) (issued : h.Issues call)
    (committed : Commits (call.run h.ctx.backend) h.storage () db) : Fits { h with storage := db } := by
  refine ⟨sound_write fits.toSound calm issued committed,?_⟩
  rw [width_write issued.ordinary issued.expected committed]
  intro x member
  by_cases embeds : call.Embeds
  · have writes := Tables.Writes.of_changes (PortWrite.makes h.ctx.backend issued.ordinary _ _ _ committed)
    rcases writes.summaries x member with old | sized
    · exact fits.summaries x old
    · exact sized.trans (fits.dim_eq_width calm issued embeds)
  · have quiet := PortWrite.quiet h.ctx.backend issued.ordinary embeds committed
    exact fits.summaries x (Tables.Writes.quiet_summaries quiet x member)

theorem activeSpace_begin_populating {name : String} {fp : EmbeddingFingerprint} {s t : Db} {u : Unit}
    (committed : Commits (EmbeddingSpaces.begin_populating ⟨name,fp,.Populating⟩) s u t) : t.activeSpace = s.activeSpace := by
  rcases EmbeddingSpaces.commits_begin_populating committed with ⟨_,_,_,_,rfl⟩ | ⟨_,contents⟩
  · rfl
  · rw [contents,Tables.activeSpace,Tables.activeSpace,List.find?_append]
    simp [EmbeddingSpace.isActive]

theorem uniform_begin_populating (uniform : h.Uniform) {name : String} {fp : EmbeddingFingerprint} {db : Db}
    (committed : Commits (EmbeddingSpaces.begin_populating ⟨name,fp,.Populating⟩) h.storage () db) :
    Uniform { h with storage := db } ∧ db.summaries = h.storage.summaries := by
  have active := activeSpace_begin_populating committed
  have kept : width { h with storage := db } = h.width := width_congr active rfl
  rcases EmbeddingSpaces.commits_begin_populating committed with ⟨_,_,_,_,rfl⟩ | ⟨absent,contents⟩
  · exact ⟨uniform,rfl⟩
  · refine ⟨⟨?_,?_,?_⟩,by rw [contents]⟩
    · rw [kept]
      exact contents ▸ uniform.facts
    · intro v held space member named
      rw [contents] at held member
      rcases List.mem_append.mp member with old | new
      · exact uniform.vectors v held space old named
      · -- no vector is in a space that was not there
        obtain ⟨owner,here,called⟩ := h.storage.foreign.vector_space v held
        rw [List.mem_singleton.mp new] at named
        exact absurd (called.trans named.symm) (by simpa using List.find?_eq_none.mp absent owner here)
    · intro none
      have stamped := uniform.stamped (active ▸ none)
      rw [contents]
      exact stamped

theorem uniform_backfill (uniform : h.Uniform) {space : EmbeddingSpace} {rows : List (FactId × Embedding)} {n : Nat} {db : Db}
    (opened : h.storage.findSpace space.name = some space) (sized : ∀ row ∈ rows, row.2.length = space.fingerprint.dim)
    (committed : Commits (write_backfill_batch space.name rows) h.storage n db) :
    Uniform { h with storage := db } ∧ db.activeSpace = h.storage.activeSpace ∧ db.summaries = h.storage.summaries := by
  obtain ⟨contents,added⟩ := commits_write_backfill_batch committed
  have spaces : db.embedding_spaces = h.storage.embedding_spaces := by rw [contents]
  have active := activeSpace_congr spaces
  have kept : width { h with storage := db } = h.width := width_congr active rfl
  obtain ⟨here,_⟩ := (findSpace_eq_some _).mp opened
  refine ⟨⟨?_,?_,?_⟩,active,by rw [contents]⟩
  · rw [kept]
    exact contents ▸ uniform.facts
  · intro v held owner member named
    rw [spaces] at member
    rcases added v held with old | ⟨called,_,listed⟩
    · exact uniform.vectors v old owner member named
    · rw [space_name_unique _ member here (named.trans called)]
      exact sized _ listed
  · intro none
    have stamped := uniform.stamped (active ▸ none)
    rw [contents]
    exact stamped

/-- What a promotion leaves: the facts and the spaces fit, whatever the summaries do. -/
structure Swaps (h : Handle) (dim : Nat) (db : Db) : Prop where
  active : ∃ space, db.activeSpace = some space ∧ space.fingerprint.dim = dim
  facts : ∀ f ∈ db.facts.rows, f.embedding.length = dim
  vectors : db.VectorsSized
  summaries : db.summaries = h.storage.summaries

theorem swaps_promote (uniform : h.Uniform) {populating : String} {outcome : PromoteOutcome} {db : Db}
    (committed : Commits (promote_space populating) h.storage outcome db) :
    ∃ space, h.storage.findSpace populating = some space ∧ outcome.new_fingerprint = space.fingerprint ∧ h.Swaps space.fingerprint.dim db := by
  obtain ⟨active,new,found,named,_,complete,contents,rfl⟩ := commits_promote_space committed
  obtain ⟨held,called⟩ := (findSpace_eq_some _).mp named
  obtain ⟨serving,_⟩ := (activeSpace_eq_some _).mp found
  refine ⟨new,named,rfl,⟨_,activeSpace_promoted named contents,rfl⟩,?_,?_,?_⟩
  · intro f member
    rw [contents] at member
    obtain ⟨old,there,rfl⟩ := mem_swappedFacts.mp member
    cases filled : vectorIn h.storage.toTables populating old.id with
    | none =>
      have unfilled : old ∈ unbackfilled h.storage.toTables populating := List.mem_filter.mpr ⟨there,by simp [filled]⟩
      rw [complete] at unfilled
      cases unfilled
    | some embedding =>
      rw [swapped,filled]
      exact uniform.vectors _ (vectorIn_eq_some.mp filled) new held called
  · intro v listed space member named
    rw [contents] at listed member
    obtain ⟨old,there,name,fingerprint⟩ := mem_promoted_spaces member
    rw [← fingerprint]
    obtain ⟨kept,_⟩ := List.mem_filter.mp listed
    rcases List.mem_append.mp kept with before | retained
    · exact uniform.vectors v before old there (name.trans named)
    · obtain ⟨f,fact,rfl⟩ := List.mem_map.mp retained
      rw [space_name_unique _ there serving (name.trans named)]
      exact (uniform.facts f fact).trans (width_of_active found)
  · rw [contents]
    rfl

theorem width_swapped {dim : Nat} {db : Db} {ctx : MemoryCtx} (swaps : h.Swaps dim db) : width ⟨db,ctx⟩ = dim := by
  obtain ⟨space,active,sized⟩ := swaps.active
  exact (width_of_active (h := ⟨db,ctx⟩) active).trans sized

/-- Whatever the handle, the store is uniform after a promotion. -/
theorem uniform_swapped {dim : Nat} {db : Db} (swaps : h.Swaps dim db) (ctx : MemoryCtx) : Uniform ⟨db,ctx⟩ := by
  refine ⟨?_,swaps.vectors,fun none => ?_⟩
  · rw [width_swapped swaps]
    exact swaps.facts
  · obtain ⟨served,active,_⟩ := swaps.active
    change db.activeSpace = .none at none
    rw [active] at none
    cases none

theorem sound_promote (sound : h.Sound) {populating : String} {outcome : PromoteOutcome} {db : Db}
    (committed : Commits (promote_space populating) h.storage outcome db) : Sound ⟨db,h.ctx.fenced outcome⟩ := by
  obtain ⟨space,named,identity,swaps⟩ := swaps_promote sound.toUniform committed
  refine ⟨uniform_swapped swaps _,fun unfenced => ?_⟩
  rw [width_swapped swaps]
  unfold dim MemoryCtx.fenced at *
  rw [identity] at unfenced ⊢
  split at unfenced
  · rename_i same
    rw [if_pos same]
    exact .inl same
  · exact .inr unfenced

theorem fits_promote (fits : h.Fits) {populating : String} {outcome : PromoteOutcome} {db : Db} (calm : h.Calm (.promote populating))
    (committed : Commits (promote_space populating) h.storage outcome db) : Fits ⟨db,h.ctx.fenced outcome⟩ := by
  obtain ⟨space,named,_,swaps⟩ := swaps_promote fits.toUniform committed
  refine ⟨sound_promote fits.toSound committed,?_⟩
  rw [width_swapped swaps,swaps.summaries]
  by_cases same : space.fingerprint.dim = h.width
  · rw [same]
    exact fits.summaries
  · rw [calm space named same]
    exact fun _ listed => absurd listed List.not_mem_nil

/-- A handle that is opened at the recorded dimension, or where none is recorded. -/
theorem sound_reopen (uniform : h.Uniform) {ctx : MemoryCtx}
    (validated : ∀ space, h.storage.activeSpace = some space → space.fingerprint.dim = ctx.backend.embed_dim) :
    Sound { h with ctx := ctx } ∧ width { h with ctx := ctx } = ctx.backend.embed_dim ∧
      (h.storage.summaries.rows = [] ∨ width { h with ctx := ctx } = h.width) := by
  cases active : h.storage.activeSpace with
  | none =>
    obtain ⟨facts,summaries⟩ := uniform.stamped active
    have free : width { h with ctx := ctx } = ctx.backend.embed_dim := by
      rw [width,active]
      rfl
    refine ⟨⟨⟨?_,uniform.vectors,uniform.stamped⟩,fun _ => .inl free⟩,free,.inl summaries⟩
    rw [facts]
    exact fun _ listed => absurd listed List.not_mem_nil
  | some space =>
    have again : ({ h with ctx := ctx } : Handle).storage.activeSpace = some space := active
    have current := (width_of_active again).trans (width_of_active active).symm
    have given := (width_of_active again).trans (validated space active)
    exact ⟨⟨⟨current ▸ uniform.facts,uniform.vectors,uniform.stamped⟩,fun _ => .inl given⟩,given,.inr current⟩

theorem fits_reopen (fits : h.Fits) {ctx : MemoryCtx}
    (validated : ∀ space, h.storage.activeSpace = some space → space.fingerprint.dim = ctx.backend.embed_dim) :
    Fits { h with ctx := ctx } ∧ width { h with ctx := ctx } = ctx.backend.embed_dim := by
  obtain ⟨sound,given,none | same⟩ := sound_reopen fits.toUniform validated
  · refine ⟨⟨sound,?_⟩,given⟩
    rw [none]
    exact fun _ listed => absurd listed List.not_mem_nil
  · exact ⟨⟨sound,same ▸ fits.summaries⟩,given⟩

theorem sound_step (sound : h.Sound) {action : Action} (current : h.Current action) (step : Step h action h') : h'.Sound := by
  cases step with
  | write issued committed => exact sound_write sound current issued committed
  | begin_populating committed =>
    have kept : width { h with storage := _ } = h.width := width_congr (activeSpace_begin_populating committed) rfl
    exact ⟨(uniform_begin_populating sound.toUniform committed).1,kept ▸ sound.opened⟩
  | backfill opened sized committed =>
    obtain ⟨uniform,active,_⟩ := uniform_backfill sound.toUniform opened sized committed
    have kept : width { h with storage := _ } = h.width := width_congr active rfl
    exact ⟨uniform,kept ▸ sound.opened⟩
  | promote committed => exact sound_promote sound committed
  | reopen unfenced validated => exact (sound_reopen sound.toUniform validated).1

theorem fits_step (fits : h.Fits) {action : Action} (calm : h.Calm action) (step : Step h action h') : h'.Fits := by
  have sound := sound_step fits.toSound calm.current step
  cases step with
  | write issued committed => exact fits_write fits calm issued committed
  | begin_populating committed =>
    have kept : width { h with storage := _ } = h.width := width_congr (activeSpace_begin_populating committed) rfl
    have summaries := (uniform_begin_populating fits.toUniform committed).2
    exact ⟨sound,by rw [kept]; exact summaries ▸ fits.summaries⟩
  | backfill opened sized committed =>
    obtain ⟨_,active,summaries⟩ := uniform_backfill fits.toUniform opened sized committed
    have kept : width { h with storage := _ } = h.width := width_congr active rfl
    exact ⟨sound,by rw [kept]; exact summaries ▸ fits.summaries⟩
  | promote committed => exact fits_promote fits calm committed
  | reopen unfenced validated => exact (fits_reopen fits validated).1

theorem Run.sound (run : Run Current h) : h.Sound := by
  induction run with
  | fresh unfenced =>
    refine ⟨⟨?_,?_,fun _ => ⟨rfl,rfl⟩⟩,fun _ => .inl rfl⟩
    · exact fun _ listed => absurd listed List.not_mem_nil
    · exact fun _ listed => absurd listed List.not_mem_nil
  | step before current step ih => exact sound_step ih current step

theorem Run.fits (run : Run Calm h) : h.Fits := by
  induction run with
  | fresh unfenced =>
    exact ⟨Run.sound (.fresh unfenced),fun _ listed => absurd listed List.not_mem_nil⟩
  | step before calm step ih => exact fits_step ih calm step

theorem legible_iff {t : Tables} {dim : Nat} (parses : t.Parses) (vectors : t.VectorsSized) : t.Legible dim ↔ t.Sized dim := by
  constructor
  · intro legible
    exact ⟨fun f member => (legible.facts f member).1,fun s member => (legible.summaries s member).1⟩
  · intro sized
    refine ⟨?_,parses.edges,?_,parses.events,parses.lineage,vectors⟩
    · intro f member
      rw [← sized.facts f member]
      exact parses.facts f member
    · exact fun s member => ⟨sized.summaries s member,parses.summaries s member⟩

/-- Readers fail on nothing but the vectors they decode. -/
theorem reads_of_sized (sized : h.storage.Sized h.dim) (vectors : h.storage.VectorsSized) : h.Reads where
  facts := sized.facts
  summaries := sized.summaries
  list_by_level := by
    intro level readable
    refine ⟨_,SummaryStore.commits_list_by_level.mpr ⟨rfl,fun row listed => ?_,rfl⟩⟩
    obtain ⟨member,here⟩ := List.mem_filter.mp listed
    exact ⟨sized.summaries row member,readable row member (by simpa using here)⟩
  for_each := by
    intro readable
    exact ⟨_,SummaryStore.commits_for_each.mpr ⟨rfl,fun row member => ⟨sized.summaries row member,readable row member⟩,rfl⟩⟩
  dump := by
    intro parses created_at
    exact ⟨_,commits_stream_snapshot.mpr ⟨(legible_iff parses vectors).mpr sized,rfl,rfl⟩⟩

theorem Fits.reads (fits : h.Fits) (current : h.width = h.dim) : h.Reads :=
  reads_of_sized ⟨current ▸ fits.facts,current ▸ fits.summaries⟩ fits.vectors

/-- In a calm run a handle of the recorded dimension reads everything; and after one, a
    promotion and an opening at its dimension lead to such a handle exactly when the
    promotion is calm. -/
theorem reads_iff_calm (run : Run Calm h) : (h.width = h.dim → h.Reads) ∧
    ∀ (h' h'' : Handle) (populating : String) (ctx : MemoryCtx), Step h (.promote populating) h' → Step h' (.reopen ctx) h'' →
      (h''.Reads ↔ h.Calm (.promote populating)) := by
  have fits := run.fits
  constructor
  · exact fits.reads
  · intro h' h'' populating ctx promoting reopening
    cases promoting with
    | promote committed =>
      cases reopening with
      | reopen unfenced validated =>
        obtain ⟨space,named,identity,swaps⟩ := swaps_promote fits.toUniform committed
        obtain ⟨served,active,dims⟩ := swaps.active
        have given : space.fingerprint.dim = ctx.backend.embed_dim := dims.symm.trans (validated served active)
        constructor
        · intro reads other called apart
          rw [named] at called
          cases called
          -- a summary of the old dimension would have the new one
          refine List.eq_nil_iff_forall_not_mem.mpr fun x member => apart ?_
          have old := fits.summaries x member
          have new := reads.summaries x (swaps.summaries ▸ member)
          rw [← old,new,given]
          rfl
        · intro calm
          obtain ⟨fits,current⟩ := fits_reopen (fits_promote fits calm committed) validated
          exact fits.reads current

end Handle

namespace Sample

def narrow : EmbeddingFingerprint := ⟨"m","p",1,none,"f32"⟩
def wide : EmbeddingFingerprint := ⟨"w","p",2,none,"f32"⟩

/-- A consolidation that found one cluster. -/
def plan : ConsolidationPlan where
  dedup := ⟨false,[],[],[]⟩
  cluster_ran := true
  cluster_summaries := [⟨"a",[0x3F000000],.Cluster,[1],moment,1⟩]
  global_summary := none
  embedding_fingerprint := some narrow
  now := moment

def first : PortWrite := .insert_fact_atomic (newFact "a") narrow 1

def wideSpace : EmbeddingSpace := ⟨"w_p_2",wide,.Populating⟩

/-- A vector of the new dimension. -/
def wideRows : List (FactId × Embedding) := [(1,[0x3F000000,0x3F000000])]

def wideCtx : MemoryCtx := ⟨{ backend with embed_dim := 2 },false,0⟩

end Sample

namespace Handle

/-- From a store with one fact, a reconstruction at dimension two. -/
theorem widened {allowed : Handle → Action → Prop} {s : Db} (run : Run allowed ⟨s,Sample.ctx⟩) (opening : ∀ h name fp, allowed h (.begin_populating name fp))
    (filling : ∀ h space rows, allowed h (.backfill space rows)) {holds : Db → Bool}
    (ran : Ends (EmbeddingSpaces.begin_populating Sample.wideSpace) s (fun _ s₁ => Ends (write_backfill_batch "w_p_2" Sample.wideRows) s₁
      fun _ s₂ => Ends (promote_space "w_p_2") s₂ fun _ s₃ => decide (s₁.findSpace "w_p_2" = some Sample.wideSpace) &&
        decide (s₃.activeSpace.map (fun space => space.fingerprint.dim) = some 2) && holds s₃) = true) :
    ∃ h h', Run allowed h ∧ Step h (.promote "w_p_2") h' ∧ Step h' (.reopen Sample.wideCtx) { h' with ctx := Sample.wideCtx } ∧
      holds h'.storage = true := by
  obtain ⟨_,s₁,begun,ran⟩ := commits_of_ends ran
  obtain ⟨n,s₂,filled,ran⟩ := commits_of_ends ran
  obtain ⟨outcome,s₃,promoted,ran⟩ := commits_of_ends ran
  simp only [Bool.and_eq_true,decide_eq_true_eq] at ran
  obtain ⟨⟨found,dims⟩,holds⟩ := ran
  have begins : Step ⟨s,Sample.ctx⟩ (.begin_populating "w_p_2" Sample.wide) ⟨s₁,Sample.ctx⟩ := .begin_populating begun
  have sized : ∀ row ∈ Sample.wideRows, row.2.length = Sample.wideSpace.fingerprint.dim := by decide
  have fills : Step ⟨s₁,Sample.ctx⟩ (.backfill Sample.wideSpace Sample.wideRows) ⟨s₂,Sample.ctx⟩ := .backfill found sized filled
  have ready := (run.step (opening _ _ _) begins).step (filling _ _ _) fills
  refine ⟨_,_,ready,.promote promoted,.reopen rfl fun space active => ?_,holds⟩
  change s₃.activeSpace = some space at active
  rw [active] at dims
  exact Option.some.inj dims

theorem issues_first : Issues ⟨Db.fresh,Sample.ctx⟩ Sample.first := ⟨id,fun _ => rfl,rfl,.inl trivial⟩

theorem reads_iff_calm_sample : ∃ h h', Run Calm h ∧ Step h (.promote "w_p_2") h' ∧ Step h' (.reopen Sample.wideCtx) { h' with ctx := Sample.wideCtx } ∧
    (Reads { h' with ctx := Sample.wideCtx } ↔ h.Calm (.promote "w_p_2")) ∧ Reads ⟨Db.fresh,Sample.ctx⟩ := by
  have ran : Ends (Sample.first.run Sample.backend) Db.fresh (fun _ s => Ends (EmbeddingSpaces.begin_populating Sample.wideSpace) s fun _ s₁ =>
      Ends (write_backfill_batch "w_p_2" Sample.wideRows) s₁ fun _ s₂ => Ends (promote_space "w_p_2") s₂ fun _ s₃ =>
        decide (s₁.findSpace "w_p_2" = some Sample.wideSpace) && decide (s₃.activeSpace.map (fun space => space.fingerprint.dim) = some 2) &&
          true) = true := by
    decide +kernel
  obtain ⟨_,s,added,ran⟩ := commits_of_ends ran
  have empty : Run Calm ⟨Db.fresh,Sample.ctx⟩ := .fresh rfl
  have calm : Calm ⟨Db.fresh,Sample.ctx⟩ (.write Sample.first) := fun _ zero => zero
  have run := empty.step calm (.write issues_first added)
  obtain ⟨h,h',ready,promoting,reopening,_⟩ := widened run (fun _ _ _ => trivial) (fun _ _ _ => trivial) ran
  exact ⟨h,h',ready,promoting,reopening,(reads_iff_calm ready).2 h' _ _ _ promoting reopening,(reads_iff_calm empty).1 rfl⟩

/-- A summary outlives the promotion at its old dimension. -/
theorem summary_left_behind : ¬ ∀ (h h' h'' : Handle) (populating : String) (ctx : MemoryCtx), Run (fun _ _ => True) h →
    Step h (.promote populating) h' → Step h' (.reopen ctx) h'' → h''.Reads := by
  intro claim
  have ran : Ends (Sample.first.run Sample.backend) Db.fresh (fun _ s => Ends ((PortWrite.apply_plan Sample.plan).run Sample.backend) s fun _ s' =>
      Ends (EmbeddingSpaces.begin_populating Sample.wideSpace) s' fun _ s₁ => Ends (write_backfill_batch "w_p_2" Sample.wideRows) s₁ fun _ s₂ =>
        Ends (promote_space "w_p_2") s₂ fun _ s₃ =>
          decide (s₁.findSpace "w_p_2" = some Sample.wideSpace) && decide (s₃.activeSpace.map (fun space => space.fingerprint.dim) = some 2) &&
            s₃.summaries.rows.any fun x => x.embedding.length == 1) = true := by
    decide +kernel
  obtain ⟨_,s,added,ran⟩ := commits_of_ends ran
  obtain ⟨_,s',consolidated,ran⟩ := commits_of_ends ran
  have empty : Run (fun _ _ => True) ⟨Db.fresh,Sample.ctx⟩ := .fresh rfl
  have issued : Issues ⟨s,Sample.ctx⟩ (.apply_plan Sample.plan) := ⟨id,fun _ => rfl,rfl,.inl fun _ none => by cases none⟩
  have run := (empty.step trivial (.write issues_first added)).step trivial (.write issued consolidated)
  obtain ⟨h,h',ready,promoting,reopening,left⟩ := widened run (fun _ _ _ => trivial) (fun _ _ _ => trivial) ran
  obtain ⟨x,member,narrow⟩ := List.any_eq_true.mp left
  have wide : x.embedding.length = 2 := (claim h h' _ _ _ ready promoting reopening).summaries x member
  rw [beq_iff_eq.mp narrow] at wide
  omega

end Handle
end MemoryEngine
