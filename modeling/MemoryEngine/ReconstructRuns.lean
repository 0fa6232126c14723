import MemoryEngine.SpaceLife

/-! Reconstructions one after the other. Each of them succeeds as long as its name is
free; a space that was promoted stays registered, so no identity comes back. -/

namespace MemoryEngine
open Time KeyedTable Transaction FactVectors EmbeddingSpaces

namespace Reconstruct

/-- A call of `reconstruct`. -/
structure Round where
  ctx : MemoryCtx
  identity : EmbeddingFingerprint
  embedder : EmbeddingProvider

/-- Every list of texts gets one vector each, of the dimension given. -/
def Embeds (embedder : EmbeddingProvider) (dim : Nat) : Prop := ∀ texts, ∃ vectors, embedder.embed_batch texts = .ok vectors ∧
  vectors.length = texts.length ∧ ∀ v ∈ vectors, v.length = dim

section loop
variable {space_name : String} {embedder : EmbeddingProvider} {dim batch_size : Nat}

/-- The facts behind the cursor that have no vector. -/
def pending (t : Tables) (space_name : String) (after_id : FactId) : List Fact :=
  (unbackfilled t space_name).filter fun f => after_id < f.id

theorem pending_ascending (t : Tables) (space_name : String) (after_id : FactId) :
    (pending t space_name after_id).Pairwise fun a b => a.id < b.id := (t.facts.ascending.filter _).filter _

theorem mem_unbackfilled {t : Tables} {space_name : String} {f : Fact} :
    f ∈ unbackfilled t space_name ↔ f ∈ t.facts.rows ∧ vectorIn t space_name f.id = none := by
  simp [unbackfilled]

/-- No more is pending than there are facts. -/
theorem pending_short (t : Tables) (space_name : String) : (pending t space_name 0).length < t.facts.rows.length + 1 :=
  Nat.lt_succ_of_le ((List.length_filter_le _ _).trans (List.length_filter_le _ _))

/-- All that is missing lies behind the cursor. -/
def Passed (t : Tables) (space_name : String) (after_id : FactId) : Prop := ∀ f ∈ unbackfilled t space_name, after_id < f.id

/-- One window is filled: the cursor passes it, and less is pending. -/
theorem passed_window {s t : Db} {after_id : FactId} {rows : List (FactId × Embedding)} {last : FactId × String}
    (passed : Passed s.toTables space_name after_id)
    (reached : (((pending s.toTables space_name after_id).take batch_size).map fun f => (f.id,f.content)).getLast? = some last)
    (keyed : rows.map Prod.fst = (((pending s.toTables space_name after_id).take batch_size).map fun f => (f.id,f.content)).map Prod.fst)
    (written : t.toTables = (rows.foldl (insertVector space_name) (s.toTables,0)).1) :
    Passed t.toTables space_name last.1 ∧
      (pending t.toTables space_name last.1).length < (pending s.toTables space_name after_id).length := by
  obtain ⟨vectors,only⟩ := foldl_insertVector space_name rows (s.toTables,0)
  have facts : t.facts = s.facts := by rw [written,only]
  obtain ⟨bound,held,rfl⟩ := List.mem_map.mp (List.mem_of_getLast? reached)
  -- what is missing now was missing before and is not in the window
  have before : ∀ f ∈ unbackfilled t.toTables space_name, f ∈ pending s.toTables space_name after_id ∧
      f ∉ (pending s.toTables space_name after_id).take batch_size := by
    intro f missing
    obtain ⟨member,none_⟩ := mem_unbackfilled.mp missing
    rw [facts] at member
    have absent : f ∈ unbackfilled s.toTables space_name := by
      refine mem_unbackfilled.mpr ⟨member,vectorIn_eq_none.mpr fun v old same => ?_⟩
      refine vectorIn_eq_none.mp none_ v ?_ same
      rw [written]
      exact subset_insertVectors rows (s.toTables,0) old
    refine ⟨List.mem_filter.mpr ⟨absent,decide_eq_true (passed f absent)⟩,fun inside => ?_⟩
    have listed : f.id ∈ rows.map Prod.fst := by
      rw [keyed,List.map_map]
      exact List.mem_map.mpr ⟨f,inside,rfl⟩
    obtain ⟨row,among,same⟩ := List.mem_map.mp listed
    obtain ⟨v,new,fact_id,space⟩ := filled_insertVectors space_name (s.toTables,0) among
    refine vectorIn_eq_none.mp none_ v ?_ (fact_id.trans same) space
    rw [written]
    exact new
  have above : ∀ f ∈ unbackfilled t.toTables space_name, bound.id < f.id := by
    intro f missing
    obtain ⟨inside,outside⟩ := before f missing
    have split := pending_ascending s.toTables space_name after_id
    rw [← List.take_append_drop batch_size (pending s.toTables space_name after_id),List.pairwise_append] at split
    rw [← List.take_append_drop batch_size (pending s.toTables space_name after_id)] at inside
    rcases List.mem_append.mp inside with early | late
    · exact absurd early outside
    · exact split.2.2 bound held f late
  refine ⟨above,?_⟩
  have nodup : (bound :: pending t.toTables space_name bound.id).Nodup := by
    refine List.nodup_cons.mpr ⟨fun again => ?_,(pending_ascending _ _ _).imp fun lt same => lt.ne (congrArg Fact.id same)⟩
    exact absurd (of_decide_eq_true (List.mem_filter.mp again).2) (lt_irrefl _)
  have within : bound :: pending t.toTables space_name bound.id ⊆ pending s.toTables space_name after_id := by
    intro f listed
    rcases List.mem_cons.mp listed with rfl | later
    · exact List.mem_of_mem_take held
    · exact (before f (List.mem_filter.mp later).1).1
  exact (nodup.subperm within).length_le

end loop

/-! ## One round -/

theorem findSpace_congr {s t : Tables} {name : String} (same : t.embedding_spaces = s.embedding_spaces) : t.findSpace name = s.findSpace name :=
  congrArg (List.find? fun space : EmbeddingSpace => space.name == name) same

/-- A name finds the space it found, with the status that was set. -/
theorem findSpace_setStatus (t : Tables) (name : String) (status : SpaceStatus) (other : String) :
    (setStatus t name status).findSpace other = (t.findSpace other).map fun s => if s.name = name then { s with status := status } else s := by
  unfold Tables.findSpace setStatus
  rw [List.find?_map]
  have same : ((fun s : EmbeddingSpace => s.name == other) ∘ fun s => if s.name = name then { s with status := status } else s) =
      fun s => s.name == other := by
    funext s
    rw [Function.comp_apply]
    split <;> rfl
  rw [same]

/-- A backfill of a populating space is part of the life of a store, and writes vectors only. -/
theorem backfills_life (space : EmbeddingSpace) {s t : Db} (life : Life s) (opened : s.findSpace space.name = some space)
    (populating : space.status = .Populating) {dim : Nat} (filling : Backfills space.name dim s t) :
    Life t ∧ t.embedding_spaces = s.embedding_spaces := by
  induction filling with
  | start => exact ⟨life,rfl⟩
  | @batch m t rows n before sized written ih =>
    obtain ⟨alive,spaces⟩ := ih
    have found : m.findSpace space.name = some space := (findSpace_congr spaces).trans opened
    refine ⟨.backfill alive found populating written,?_⟩
    rw [(commits_write_backfill_batch written).1]
    exact spaces

/-- The one active space is that of the identity. -/
def Serves (t : Tables) (fp : EmbeddingFingerprint) : Prop :=
  t.embedding_spaces.filter EmbeddingSpace.isActive = [⟨space_name_for fp,fp,.Active⟩]

/-- The space that a reconstruction fills, and the others as they were. -/
theorem begun_registry {fp : EmbeddingFingerprint} {s t : Db} {u : Unit}
    (begun : Commits (begin_populating ⟨space_name_for fp,fp,.Populating⟩) s u t) :
    t.findSpace (space_name_for fp) = some ⟨space_name_for fp,fp,.Populating⟩ ∧ t.activeSpace = s.activeSpace ∧
      ∀ name, name ≠ space_name_for fp → t.findSpace name = s.findSpace name := by
  rcases commits_begin_populating begun with ⟨⟨name,identity,status⟩,found,populating,same,rfl⟩ | ⟨_,written⟩
  · have named : name = space_name_for fp := ((findSpace_eq_some t).mp found).2
    have populating : status = .Populating := populating
    have same : identity = fp := same
    rw [named,populating,same] at found
    exact ⟨found,rfl,fun _ _ => rfl⟩
  · refine ⟨?_,?_,fun name apart => ?_⟩
    · refine (findSpace_eq_some t).mpr ⟨?_,rfl⟩
      rw [written]
      exact List.mem_append_right _ (List.mem_singleton_self _)
    · rw [written]
      exact activeSpace_begun rfl
    · rw [written]
      unfold Tables.findSpace
      rw [List.find?_append]
      have passed : [(⟨space_name_for fp,fp,.Populating⟩ : EmbeddingSpace)].find? (fun s => s.name == name) = none := by
        simp [Ne.symm apart]
      rw [passed,Option.or_none]

/-- What a reconstruction does to the registry: the served space is deprecated, that of the
    identity serves, and the others are as they were. -/
theorem commits_round {ctx : MemoryCtx} {fp : EmbeddingFingerprint} {embedder : EmbeddingProvider} {e e' : Engine} {outcome : PromoteOutcome}
    (life : Life e.storage) (committed : Commits (reconstruct ctx fp embedder) e outcome e') : Life e'.storage ∧ Serves e'.storage.toTables fp ∧
      ∃ active, e.storage.activeSpace = some active ∧ ∀ name, name ≠ space_name_for fp → e'.storage.findSpace name =
        (e.storage.findSpace name).map fun s => if s.name = active.name then { s with status := .Deprecated } else s := by
  obtain ⟨m,m',promoted,begun,filling,swapped,_⟩ := commits_reconstruct committed
  obtain ⟨found,serving,others⟩ := begun_registry begun
  obtain ⟨alive,spaces⟩ := backfills_life ⟨space_name_for fp,fp,.Populating⟩ (.begin_populating life begun) found rfl filling
  obtain ⟨active,new,active_served,named,_,_,contents,_⟩ := commits_promote_space swapped
  have named' : m'.findSpace (space_name_for fp) = some ⟨space_name_for fp,fp,.Populating⟩ := (findSpace_congr spaces).trans found
  refine ⟨.promote alive swapped,?_,active,?_,fun name apart => ?_⟩
  · unfold Serves
    rw [filter_active,activeSpace_promoted named' contents]
    rw [Option.toList_some]
  · rw [← serving,← activeSpace_congr spaces]
    exact active_served
  · have flipped : e'.storage.findSpace name =
        (setStatus (setStatus m'.toTables active.name .Deprecated) (space_name_for fp) .Active).findSpace name := by
      rw [contents]
      rfl
    rw [flipped,findSpace_setStatus,findSpace_setStatus,findSpace_congr spaces,others name apart]
    cases held : e.storage.findSpace name with
    | none => rfl
    | some s =>
      have other : s.name = name := ((findSpace_eq_some e.storage).mp held).2
      have apart' : ∀ space : EmbeddingSpace, space.name = s.name → space.name ≠ space_name_for fp := by
        intro space same named
        exact apart (other.symm.trans (same.symm.trans named))
      rw [Option.map_some,Option.map_some,if_neg]
      split
      · exact apart' _ rfl
      · exact apart' _ rfl

namespace Sample

def embedder (fp : EmbeddingFingerprint) : EmbeddingProvider :=
  ⟨fun _ => .ok (List.replicate fp.dim 0),fun texts => .ok (texts.map fun _ => List.replicate fp.dim 0),fp⟩

/-- A round with an embedder of its identity. -/
def round (model : String) : Round := ⟨MemoryEngine.Sample.ctx,⟨model,"p",1,none,"f32"⟩,embedder ⟨model,"p",1,none,"f32"⟩⟩

/-- A store with an identity and nothing else. -/
theorem recorded : ∃ db : Db, Life db ∧ db.embedding_spaces = [⟨EmbeddingSpace.DEFAULT_NAME,⟨"a","p",1,none,"f32"⟩,.Active⟩] := by
  have ends : Ends ((PortWrite.record_embedding_fingerprint_if_absent ⟨"a","p",1,none,"f32"⟩ 1).run MemoryEngine.Sample.backend) Db.fresh
      (fun _ t => decide (t.embedding_spaces = [⟨EmbeddingSpace.DEFAULT_NAME,⟨"a","p",1,none,"f32"⟩,.Active⟩])) = true := by
    decide +kernel
  obtain ⟨u,db,committed,tested⟩ := commits_of_ends ends
  exact ⟨db,.write .fresh id committed,of_decide_eq_true tested⟩

end Sample

end Reconstruct
end MemoryEngine
