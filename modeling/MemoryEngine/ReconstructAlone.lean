import MemoryEngine.ReconstructRace

/-! One reconstruction among other calls. Its own space fills with vectors of its embedder
only, and the promotion puts exactly those into the facts. -/

namespace MemoryEngine
open Time KeyedTable Transaction FactVectors EmbeddingSpaces Reconstruct

/-- A later version of a fact, with the same content. -/
def Fact.SameContent (f f' : Fact) : Prop := f'.content = f.content

theorem Fact.SameContent.refl (f : Fact) : f.SameContent f := rfl

/-- No change rewrites a content. -/
theorem Changes.contents {dim expected_dim : Nat} {s t : Tables} (changes : Changes dim expected_dim s t) : s.facts.Ages Fact.SameContent t.facts := by
  refine changes.respects (R := fun s t => s.facts.Ages Fact.SameContent t.facts) (fun _ => .refl Fact.SameContent.refl _)
    (fun _ _ _ first second => first.trans (fun _ _ _ early late => Eq.trans late early) second) fun s t change => ?_
  cases change with
  | insert_fact row tagged sized => exact .insert Fact.SameContent.refl _ row tagged
  | update_facts sel change same kept => exact .update Fact.SameContent.refl _ same fun f _ selected => (kept f selected).content
  | delete_facts sel => exact .delete Fact.SameContent.refl _ _
  | beside same => exact same.facts ▸ .refl Fact.SameContent.refl _
  | _ => exact .refl Fact.SameContent.refl _

namespace Reconstruct

/-- A vector that an embedder gave for a text, in a batch with one vector for each text. -/
def Gave (embedder : EmbeddingProvider) (text : String) (v : Embedding) : Prop := ∃ texts vectors,
  embedder.embed_batch texts = .ok vectors ∧ vectors.length = texts.length ∧ (text,v) ∈ texts.zip vectors

/-- The vectors of a window are those of its contents. -/
theorem gave_window {embedder : EmbeddingProvider} {dim : Nat} {window : List (FactId × String)} {rows : List (FactId × Embedding)}
    (embedded : embedWindow embedder dim window = .ok rows) {row : FactId × Embedding} (listed : row ∈ rows) :
    ∃ content, (row.1,content) ∈ window ∧ Gave embedder content row.2 := by
  unfold embedWindow at embedded
  cases made : embedder.embed_batch (window.map Prod.snd) with
  | error e =>
    rw [made] at embedded
    cases embedded
  | ok vectors =>
    rw [made] at embedded
    change (if vectors.length ≠ window.length then _ else _) = _ at embedded
    split at embedded
    · cases embedded
    · rename_i counted
      split at embedded
      · cases embedded
      · cases embedded
        have counted : vectors.length = (window.map Prod.snd).length := by
          rw [List.length_map]
          omega
        obtain ⟨i,inside,rfl⟩ := List.mem_iff_getElem.mp listed
        rw [List.length_zip,List.length_map] at inside
        have within : i < window.length := by omega
        refine ⟨window[i].2,?_,window.map Prod.snd,vectors,made,counted,?_⟩
        · rw [List.getElem_zip,List.getElem_map]
          exact List.getElem_mem _
        · rw [List.getElem_zip]
          refine List.mem_iff_getElem.mpr ⟨i,?_,?_⟩
          · rw [List.length_zip,List.length_map]
            omega
          · rw [List.getElem_zip,List.getElem_map]

/-- A vector is the embedder's for the fact with an id, or for none. -/
def Suits (embedder : EmbeddingProvider) (t : Tables) (id : FactId) (v : Embedding) : Prop :=
  id ≤ t.facts.seq ∧ ∀ f ∈ t.facts.rows, f.id = id → Gave embedder f.content v

/-- It stays so, since the ids of new facts are above it. -/
theorem Suits.later {embedder : EmbeddingProvider} {s t : Tables} {id : FactId} {v : Embedding} (suits : Suits embedder s id v)
    (ages : s.facts.Ages Fact.SameContent t.facts) : Suits embedder t id v := by
  refine ⟨suits.1.trans ages.seq,fun f member same => ?_⟩
  obtain ⟨before,held,keyed,kept⟩ := ages.old f member (le_of_eq_of_le same suits.1)
  have content : f.content = before.content := kept
  rw [content]
  exact suits.2 before held (keyed.trans same)

end Reconstruct

namespace ReconstructCall

/-- The phases in which the space of the call is being filled. -/
def Phase.Fills : Phase → Prop
  | .reading _ _ => True
  | .writing _ _ _ => True
  | .promoting => True
  | _ => False

/-- The vectors that wait to be written suit their facts. -/
def Phase.Waits (embedder : EmbeddingProvider) (t : Tables) : Phase → Prop
  | .writing _ rows _ => ∀ row ∈ rows, Suits embedder t row.1 row.2
  | _ => True

theorem Phase.Waits.later {embedder : EmbeddingProvider} {s t : Tables} {phase : Phase} (waits : phase.Waits embedder s)
    (ages : s.facts.Ages Fact.SameContent t.facts) : phase.Waits embedder t := by
  cases phase with
  | writing left rows last_id => exact fun row listed => (waits row listed).later ages
  | _ => trivial

theorem Phase.next_fills (left : Nat) : (Phase.next left).Fills := by
  cases left <;> trivial

theorem Phase.next_waits (embedder : EmbeddingProvider) (t : Tables) (left : Nat) : (Phase.next left).Waits embedder t := by
  cases left <;> trivial

end ReconstructCall

namespace ReconstructRace
open ReconstructCall (Phase)

/-- No other reconstruction. -/
def Alone (_ : ReconstructRace) : Event → Prop
  | .start _ => False
  | _ => True

/-- What an earlier call left in the space of the target is of the same embedder. -/
def Resumes (fp : EmbeddingFingerprint) (embedder : EmbeddingProvider) (s : Db) : Prop :=
  ∀ v ∈ s.fact_vectors, v.space_id = space_name_for fp → ∀ f ∈ s.facts.rows, f.id = v.fact_id → Gave embedder f.content v.embedding

section alone
variable {fp : EmbeddingFingerprint} {embedder : EmbeddingProvider} {r r' : ReconstructRace} {event : Event}

/-- What a run with one reconstruction keeps. -/
structure Filling (fp : EmbeddingFingerprint) (embedder : EmbeddingProvider) (phase : Phase) (r : ReconstructRace) : Prop where
  rested : Rested r.storage.toTables
  one : r.calls = [⟨fp,embedder,phase⟩]
  opened : phase.Fills → r.storage.findSpace (space_name_for fp) = some ⟨space_name_for fp,fp,.Populating⟩
  waits : phase.Waits embedder r.storage.toTables
  given : ∀ v ∈ r.storage.fact_vectors, v.space_id = space_name_for fp → Suits embedder r.storage.toTables v.fact_id v.embedding

/-- A space that is there is found after another one is stamped. -/
theorem findSpace_writes {dim expected_dim : Nat} {s t : Tables} {name : String} {space : EmbeddingSpace} (writes : s.Writes dim expected_dim t)
    (found : s.findSpace name = some space) : t.findSpace name = some space := by
  rcases writes.spaces with same | ⟨_,_,_,stamped⟩
  · exact (findSpace_congr same).trans found
  · unfold Tables.findSpace at found ⊢
    rw [stamped,List.find?_append,found,Option.some_or]

theorem filling_port {phase : Phase} (filling : Filling fp embedder phase r) {self : SqliteBackend} {call : PortWrite} {db : Db} (ordinary : ¬ call.OnSpaces)
    (committed : Commits (call.run self) r.storage () db) : Filling fp embedder phase { r with storage := db } := by
  have changes := PortWrite.makes self ordinary _ _ _ committed
  have writes := Tables.Writes.of_changes changes
  exact ⟨rested_write filling.rested writes,filling.one,fun fills => findSpace_writes writes (filling.opened fills),
    filling.waits.later changes.contents,fun v held named => (filling.given v (writes.vectors held) named).later changes.contents⟩

theorem apart_of_opened {s : Db} (opened : s.findSpace (space_name_for fp) = some ⟨space_name_for fp,fp,.Populating⟩) :
    ∀ active, s.activeSpace = some active → active.name ≠ space_name_for fp :=
  @apart_of_populating ⟨space_name_for fp,fp,.Populating⟩ s opened rfl

theorem suits_congr {s t : Tables} {id : FactId} {v : Embedding} (facts : t.facts = s.facts) (suits : Suits embedder s id v) : Suits embedder t id v := by
  unfold Suits
  rw [facts]
  exact suits

theorem filling_begin {db : Db} (filling : Filling fp embedder .opening r)
    (committed : Commits (begin_populating ⟨space_name_for fp,fp,.Populating⟩) r.storage () db) :
    Filling fp embedder (.reading 1 0) ⟨db,[⟨fp,embedder,.reading 1 0⟩]⟩ := by
  refine ⟨rested_begun filling.rested committed,rfl,fun _ => (begun_registry committed).1,trivial,fun v held named => ?_⟩
  rcases commits_begin_populating committed with ⟨_,_,_,_,rfl⟩ | ⟨_,written⟩
  · exact filling.given v held named
  · have facts : db.facts = r.storage.facts := by rw [written]
    rw [written] at held
    exact suits_congr facts (filling.given v held named)

theorem filling_read {left : Nat} {after_id last_id : FactId} {window : List (FactId × String)} {rows : List (FactId × Embedding)}
    (filling : Filling fp embedder (.reading left after_id) r)
    (fetched : Commits (next_backfill_window (space_name_for fp) after_id DEFAULT_BACKFILL_BATCH) r.storage window r.storage)
    (embedded : embedWindow embedder fp.dim window = .ok rows) :
    Filling fp embedder (.writing left rows last_id) ⟨r.storage,[⟨fp,embedder,.writing left rows last_id⟩]⟩ := by
  refine ⟨filling.rested,rfl,fun _ => filling.opened trivial,fun row listed => ?_,filling.given⟩
  obtain ⟨content,inside,gave⟩ := gave_window embedded listed
  rw [(commits_query.mp fetched).1] at inside
  obtain ⟨f,taken,same⟩ := List.mem_map.mp inside
  obtain ⟨id,read⟩ := Prod.mk.inj same
  have member : f ∈ r.storage.facts.rows := (mem_unbackfilled.mp (List.mem_filter.mp (List.mem_of_mem_take taken)).1).1
  -- the content was read from the fact
  refine ⟨le_of_eq_of_le id.symm (r.storage.facts.allocated f member),fun f' member' same' => ?_⟩
  rw [r.storage.facts.key_unique member' member (same'.trans id.symm),read]
  exact gave

theorem filling_write {left n : Nat} {rows : List (FactId × Embedding)} {last_id : FactId} {db : Db}
    (filling : Filling fp embedder (.writing left rows last_id) r)
    (committed : Commits (write_backfill_batch (space_name_for fp) rows) r.storage n db) :
    Filling fp embedder (.reading left last_id) ⟨db,[⟨fp,embedder,.reading left last_id⟩]⟩ := by
  have apart := apart_of_opened (filling.opened trivial)
  obtain ⟨written,new⟩ := commits_write_backfill_batch committed
  have spaces : db.embedding_spaces = r.storage.embedding_spaces := by rw [written]
  have facts : db.facts = r.storage.facts := by rw [written]
  refine ⟨rested_filled filling.rested apart committed,rfl,fun _ => (findSpace_congr spaces).trans (filling.opened trivial),trivial,fun v held named => ?_⟩
  refine suits_congr facts ?_
  rcases new v held with old | ⟨_,_,listed⟩
  · exact filling.given v old named
  · exact filling.waits _ listed

theorem filling_promote {outcome : PromoteOutcome} {db : Db} (filling : Filling fp embedder .promoting r)
    (committed : Commits (promote_space (space_name_for fp)) r.storage outcome db) :
    Filling fp embedder (.ended (some outcome)) ⟨db,[⟨fp,embedder,.ended (some outcome)⟩]⟩ := by
  refine ⟨rested_promote filling.rested committed,rfl,fun none_ => absurd none_ id,trivial,fun v held named => ?_⟩
  -- the backfill is dropped
  obtain ⟨_,_,_,_,_,_,contents,_⟩ := commits_promote_space committed
  rw [contents] at held
  exact absurd (beq_iff_eq.mpr named) (by simpa using (List.mem_filter.mp held).2)

theorem singleton_split {α : Type} {a b : α} {front rest : List α} (same : [a] = front ++ b :: rest) : b = a ∧ front = [] ∧ rest = [] := by
  cases front with
  | nil =>
    obtain ⟨rfl,rfl⟩ := List.cons.inj same
    exact ⟨rfl,rfl,rfl⟩
  | cons head front =>
    obtain ⟨_,later⟩ := List.cons.inj same
    exact absurd later.symm (by simp)

theorem filling_step {phase : Phase} (filling : Filling fp embedder phase r) (may : r.Alone event) (step : Step r event r') :
    ∃ phase', Filling fp embedder phase' r' := by
  cases step with
  | port ordinary committed => exact ⟨phase,filling_port filling ordinary committed⟩
  | start => exact absurd may id
  | advance running step =>
    obtain ⟨rfl,rfl,rfl⟩ := singleton_split (filling.one.symm.trans running)
    cases step with
    | begin_populating committed => exact ⟨_,filling_begin filling committed⟩
    | read fetched reached embedded => exact ⟨_,filling_read filling fetched embedded⟩
    | @filled _ _ left _ _ =>
      exact ⟨_,filling.rested,rfl,fun _ => filling.opened trivial,Phase.next_waits embedder _ left,filling.given⟩
    | write committed => exact ⟨_,filling_write filling committed⟩
    | promote committed => exact ⟨_,filling_promote filling committed⟩
  | fail running =>
    obtain ⟨rfl,rfl,rfl⟩ := singleton_split (filling.one.symm.trans running)
    exact ⟨_,filling.rested,rfl,fun none_ => absurd none_ id,trivial,filling.given⟩

theorem Run.filling {s : Db} (life : Life s) (resumes : Resumes fp embedder s) (run : Run Alone ⟨s,[⟨fp,embedder,.opening⟩]⟩ r) : ∃ phase, Filling fp embedder phase r := by
  induction run with
  | start =>
    refine ⟨.opening,life.rested,rfl,fun none_ => absurd none_ id,trivial,fun v held named => ⟨?_,resumes v held named⟩⟩
    obtain ⟨f,member,same⟩ := s.foreign.vector_fact v held
    exact le_of_eq_of_le same.symm (s.facts.allocated f member)
  | step before may step ih =>
    obtain ⟨phase,filling⟩ := ih
    exact filling_step filling may step

end alone

/-- The facts hold the vectors of the embedder, the target serves alone, and the vectors of
    before are kept under the name of the space that served. -/
structure Reconstructed (fp : EmbeddingFingerprint) (embedder : EmbeddingProvider) (s t : Db) : Prop where
  vectors : ∀ f ∈ t.facts.rows, Gave embedder f.content f.embedding
  serves : Serves t.toTables fp
  retained : ∃ active, s.activeSpace = some active ∧ ∀ id v, ⟨id,active.name,v⟩ ∈ t.fact_vectors ↔ ∃ f ∈ s.facts.rows, f.id = id ∧ f.embedding = v

theorem reconstructed {fp : EmbeddingFingerprint} {embedder : EmbeddingProvider} {r : ReconstructRace} {outcome : PromoteOutcome} {db : Db}
    (filling : Filling fp embedder .promoting r) (committed : Commits (promote_space (space_name_for fp)) r.storage outcome db) :
    Reconstructed fp embedder r.storage db := by
  have opened := filling.opened trivial
  obtain ⟨active,new,serving,named,_,complete,contents,_⟩ := commits_promote_space committed
  have apart := apart_of_opened opened active serving
  refine ⟨fun f member => ?_,?_,active,serving,fun id v => ⟨fun held => ?_,?_⟩⟩
  · rw [contents] at member
    obtain ⟨old,there,rfl⟩ := mem_swappedFacts.mp member
    cases filled : vectorIn r.storage.toTables (space_name_for fp) old.id with
    | none =>
      have missing := mem_unbackfilled.mpr ⟨there,filled⟩
      rw [complete] at missing
      cases missing
    | some v =>
      have given := (filling.given _ (vectorIn_eq_some.mp filled) rfl).2 old there rfl
      rw [swapped,filled]
      exact given
  · unfold Serves
    rw [filter_active,activeSpace_promoted opened contents,Option.toList_some]
  · rw [contents] at held
    rcases List.mem_append.mp (List.mem_filter.mp held).1 with old | kept
    · exact absurd rfl (filling.rested.idle active serving _ old)
    · obtain ⟨f,member,same⟩ := List.mem_map.mp kept
      cases same
      exact ⟨f,member,rfl,rfl⟩
  · rintro ⟨f,member,rfl,rfl⟩
    rw [contents]
    refine List.mem_filter.mpr ⟨List.mem_append_right _ (List.mem_map.mpr ⟨f,member,rfl⟩),?_⟩
    exact bne_iff_ne.mpr apart

/-- Whatever other calls commit between the steps of a reconstruction, its promotion swaps
    all the vectors or changes nothing. -/
theorem promotion_swaps {s : Db} (life : Life s) {fp : EmbeddingFingerprint} {embedder : EmbeddingProvider} (resumes : Resumes fp embedder s)
    {r : ReconstructRace} (run : Run Alone ⟨s,[⟨fp,embedder,.opening⟩]⟩ r) :
    (∀ r', Step r (.advance ⟨fp,embedder,.promoting⟩) r' → Reconstructed fp embedder r.storage r'.storage) ∧
      ∀ error db, Commits (attempt (promote_space (space_name_for fp))) r.storage (.error error) db → db.toTables = r.storage.toTables := by
  obtain ⟨phase,filling⟩ := run.filling life resumes
  refine ⟨fun r' step => ?_,fun error db failed => ?_⟩
  · cases step with
    | advance running step =>
      obtain ⟨same,rfl,rfl⟩ := singleton_split (filling.one.symm.trans running)
      cases same
      cases step with
      | promote committed => exact reconstructed filling committed
  · rcases commits_attempt.mp failed with ⟨_,same,_⟩ | ⟨_,_,_,rfl⟩
    · cases same
    · rfl

/-- A call that nothing interrupts is such a run. -/
theorem run_of_steps {s t : Db} {call call' : ReconstructCall} (steps : ReconstructCall.Steps s call t call') :
    Run Alone ⟨s,[call]⟩ ⟨t,[call']⟩ := by
  induction steps with
  | start => exact .start
  | @step m t call' call'' before step ih =>
    have advances : Step ⟨m,[call']⟩ (.advance call') ⟨t,[] ++ call'' :: []⟩ := .advance rfl step
    have may : Alone ⟨m,[call']⟩ (.advance call') := trivial
    exact ih.step may advances

/-- Until the promotion the facts and the served space are as they were. -/
theorem served_steps {s t : Db} {call call' : ReconstructCall} (steps : ReconstructCall.Steps s call t call')
    (going : ∀ outcome, call'.phase ≠ .ended outcome) : t.facts = s.facts ∧ t.activeSpace = s.activeSpace := by
  induction steps with
  | start => exact ⟨rfl,rfl⟩
  | step before step ih =>
    cases step with
    | begin_populating committed =>
      obtain ⟨facts,active⟩ := ih fun _ same => by cases same
      refine ⟨Eq.trans ?_ facts,(begun_registry committed).2.1.trans active⟩
      rcases commits_begin_populating committed with ⟨_,_,_,_,rfl⟩ | ⟨_,written⟩
      · rfl
      · rw [written]
    | read fetched reached embedded => exact ih fun _ same => by cases same
    | filled fetched => exact ih fun _ same => by cases same
    | write committed =>
      obtain ⟨facts,active⟩ := ih fun _ same => by cases same
      have written := (commits_write_backfill_batch committed).1
      exact ⟨(congrArg Tables.facts written).trans facts,(activeSpace_congr (congrArg Tables.embedding_spaces written)).trans active⟩
    | promote committed => exact absurd rfl (going _)

/-- So a call that commits swaps all the vectors. -/
theorem commits_reconstruct_swaps {ctx : MemoryCtx} {fp : EmbeddingFingerprint} {embedder : EmbeddingProvider} {e e' : Engine} {outcome : PromoteOutcome}
    (life : Life e.storage) (resumes : Resumes fp embedder e.storage) (committed : Commits (reconstruct ctx fp embedder) e outcome e') :
    Reconstructed fp embedder e.storage e'.storage := by
  obtain ⟨m,promoted,steps,swapped⟩ := steps_reconstruct life committed
  obtain ⟨facts,active⟩ := served_steps steps fun _ same => by cases same
  obtain ⟨phase,filling⟩ := (run_of_steps steps).filling life resumes
  cases filling.one
  obtain ⟨vectors,serves,served,serving,kept⟩ := reconstructed filling swapped
  rw [active] at serving
  rw [facts] at kept
  exact ⟨vectors,serves,served,serving,kept⟩

open Reconstruct.Sample (target caller batch added)

/-- The first fact is added while the call waits, and is backfilled. -/
theorem promotion_swaps_sample : ∃ r r', Run Alone ⟨Db.fresh,[caller .opening]⟩ r ∧ Step r (.advance (caller .promoting)) r' ∧
    Reconstructed target (Reconstruct.Sample.embedder target) r.storage r'.storage := by
  have ran : Ends (added.run MemoryEngine.Sample.backend) Db.fresh (fun _ s =>
      Ends (begin_populating ⟨space_name_for target,target,.Populating⟩) s fun _ s₁ =>
        Ends (write_backfill_batch (space_name_for target) batch) s₁ fun _ s₂ => Ends (promote_space (space_name_for target)) s₂ fun _ _ =>
          Ends (next_backfill_window (space_name_for target) 0 DEFAULT_BACKFILL_BATCH) s₁ (fun window _ => decide (window = [(1,"a")])) &&
          Ends (next_backfill_window (space_name_for target) 1 DEFAULT_BACKFILL_BATCH) s₂ (fun window _ => decide (window = [])) &&
          Ends (next_backfill_window (space_name_for target) 0 DEFAULT_BACKFILL_BATCH) s₂ (fun window _ => decide (window = []))) = true := by
    decide +kernel
  obtain ⟨_,s,first,ran⟩ := commits_of_ends ran
  obtain ⟨_,s₁,begun,ran⟩ := commits_of_ends ran
  obtain ⟨n,s₂,filled,ran⟩ := commits_of_ends ran
  obtain ⟨outcome,s₃,promoted,ran⟩ := commits_of_ends ran
  simp only [Bool.and_eq_true] at ran
  obtain ⟨⟨window,passed⟩,caught⟩ := ran
  have advance {db db' : Db} {call call' : ReconstructCall} (step : call.Step db db' call') : Step ⟨db,[call]⟩ (.advance call) ⟨db',[] ++ call' :: []⟩ :=
    .advance rfl step
  have on {r r' : ReconstructRace} {event : Event} (run : Run Alone ⟨Db.fresh,[caller .opening]⟩ r) (step : Step r event r') (may : r.Alone event) :
      Run Alone ⟨Db.fresh,[caller .opening]⟩ r' := run.step may step
  have waits : Step ⟨Db.fresh,[caller .opening]⟩ (.port added) ⟨s,[caller .opening]⟩ := .port id first
  have run := on (on .start waits trivial) (advance (.begin_populating begun)) trivial
  have run := on (on run (advance (.read (fetched_of_ends window) rfl rfl)) trivial) (advance (.write filled)) trivial
  have run := on (on run (advance (.filled (fetched_of_ends passed))) trivial) (advance (.filled (fetched_of_ends caught))) trivial
  have promotes : Step ⟨s₂,[caller .promoting]⟩ (.advance (caller .promoting)) ⟨s₃,[] ++ caller (.ended (some outcome)) :: []⟩ := advance (.promote promoted)
  have empty : Resumes target (Reconstruct.Sample.embedder target) Db.fresh := fun _ held => absurd held List.not_mem_nil
  exact ⟨_,_,run,promotes,(promotion_swaps .fresh empty run).1 _ promotes⟩

end ReconstructRace
end MemoryEngine
