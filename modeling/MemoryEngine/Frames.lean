import MemoryEngine.SidecarStores
import MemoryEngine.EdgeStore

/-! What the statements on facts leave alone: the edges, and every fact id handed
out so far. A transaction built from such statements leaves them alone too. -/

namespace MemoryEngine
open Time KeyedTable Transaction

/-- The edges are the same and no fact id is handed out twice. -/
def SameEdges (s t : Db) : Prop := t.edges = s.edges ∧ s.facts.seq ≤ t.facts.seq

theorem SameEdges.refl (s : Db) : SameEdges s s := ⟨rfl,le_refl _⟩

theorem SameEdges.trans {s m t : Db} (first : SameEdges s m) (second : SameEdges m t) : SameEdges s t :=
  ⟨second.1.trans first.1,first.2.trans second.2⟩

theorem SameEdges.activeEdges {s t : Db} (same : SameEdges s t) : t.activeEdges = s.activeEdges :=
  activeEdges_congr same.1

theorem SameEdges.nextId_le {s t : Db} (same : SameEdges s t) : s.facts.nextId ≤ t.facts.nextId :=
  Int.add_le_add_right same.2 1

/-- Every commit leaves the edges alone. -/
abbrev KeepsEdges {α : Type} (x : Sql α) : Prop := Keeps SameEdges x

theorem keepsEdges_of_core {α : Type} {x : Sql α} (keeps : KeepsCore x) : KeepsEdges x := by
  intro s a t committed
  have same := keeps s a t committed
  exact ⟨same.2.1,le_of_eq (congrArg Table.seq same.1).symm⟩

theorem keepsEdges_execute {change : Tables → Tables} (edges : ∀ t, (change t).edges = t.edges)
    (seq : ∀ t, t.facts.seq ≤ (change t).facts.seq) : KeepsEdges (execute change) := by
  intro s u t committed
  rw [SameEdges,commits_execute.mp committed]
  exact ⟨edges s.toTables,seq s.toTables⟩

theorem keepsEdges_query {α : Type} {read : Tables → α} : KeepsEdges (query read) := keepsEdges_of_core keepsCore_query

theorem keepsEdges_require {p : Prop} [Decidable p] {error : MemoryError} : KeepsEdges (require p error) :=
  keepsEdges_of_core keepsCore_require

theorem keepsEdges_pure {α : Type} (a : α) : KeepsEdges (pure a) := Keeps.pure SameEdges.refl a

theorem keepsEdges_throw {α : Type} (e : MemoryError) : KeepsEdges (throw e : Sql α) := Keeps.throw e

theorem keepsEdges_lift {α : Type} (x : Except MemoryError α) : KeepsEdges (liftM x) := by
  intro s a t committed
  rw [(commits_lift.mp committed).2]
  exact SameEdges.refl s

theorem keepsEdges_bind {α β : Type} {x : Sql α} {f : α → Sql β} (first : KeepsEdges x) (rest : ∀ a, KeepsEdges (f a)) :
    KeepsEdges (x >>= f) := by
  refine Keeps.bind ?_ first rest
  exact fun s m t left right => left.trans right

theorem keepsEdges_guarded {p : Prop} [Decidable p] {x : Sql Unit} (keeps : KeepsEdges x) : KeepsEdges (guarded p x) :=
  Keeps.guarded SameEdges.refl keeps

theorem keepsEdges_foldlM {α β : Type} {f : β → α → Sql β} (round : ∀ b a, KeepsEdges (f b a)) (items : List α) (b : β) :
    KeepsEdges (items.foldlM f b) := by
  refine Keeps.foldlM SameEdges.refl ?_ round items b
  exact fun s m t left right => left.trans right

/-- Every commit leaves one part of the tables alone. -/
abbrev Leaves {β α : Type} (part : Tables → β) (x : Sql α) : Prop := Keeps (fun s t : Db => part t.toTables = part s.toTables) x

section leaves
variable {α β γ : Type} {part : Tables → γ}

theorem leaves_execute {change : Tables → Tables} (same : ∀ t, part (change t) = part t) : Leaves part (execute change) := by
  intro s u t committed
  rw [commits_execute.mp committed]
  exact same s.toTables

theorem leaves_query {read : Tables → α} : Leaves part (query read) := by
  intro s a t committed
  rw [(commits_query.mp committed).2]

theorem leaves_require {p : Prop} [Decidable p] {error : MemoryError} : Leaves part (require p error) := by
  intro s a t committed
  rw [(commits_require.mp committed).2]

theorem leaves_lift (x : Except MemoryError α) : Leaves part (liftM x) := by
  intro s a t committed
  rw [(commits_lift.mp committed).2]

theorem leaves_pure (a : α) : Leaves part (pure a) := by
  intro s b t committed
  rw [(commits_pure.mp committed).2]

theorem leaves_bind {x : Sql α} {f : α → Sql β} (first : Leaves part x) (rest : ∀ a, Leaves part (f a)) :
    Leaves part (x >>= f) := by
  refine Keeps.bind ?_ first rest
  exact fun s m t left right => right.trans left

theorem leaves_throw (e : MemoryError) : Leaves part (throw e : Sql α) := Keeps.throw e

theorem leaves_attempt {x : Sql α} (leaves : Leaves part x) : Leaves part (attempt x) := by
  refine Keeps.attempt ?_ leaves
  exact fun s => rfl

theorem leaves_guarded {p : Prop} [Decidable p] {x : Sql Unit} (leaves : Leaves part x) : Leaves part (guarded p x) := by
  refine Keeps.guarded ?_ leaves
  exact fun s => rfl

theorem leaves_foldlM {f : β → α → Sql β} (round : ∀ b a, Leaves part (f b a)) (items : List α) (b : β) :
    Leaves part (items.foldlM f b) := by
  refine Keeps.foldlM ?_ ?_ round items b
  · exact fun s => rfl
  · exact fun s m t left right => right.trans left

variable (part) in
theorem FactStore.leaves_insert (self : SqliteBackend) (apart : ∀ t facts, part { t with facts := facts } = part t)
    (fact : NewFact) : Leaves part (FactStore.insert self fact) := by
  intro s id t committed
  obtain ⟨_,importance,_,_,written⟩ := FactStore.commits_insert.mp committed
  rw [written]
  exact apart _ _

variable (part) in
theorem LineageStore.leaves_insert (apart : ∀ t lineage, part { t with lineage := lineage } = part t) (record : NewLineageRecord)
    (provenance : PromotionProvenance) : Leaves part (LineageStore.insert record provenance) :=
  leaves_bind leaves_query fun _ => leaves_bind leaves_require fun _ => leaves_bind leaves_query fun _ =>
    leaves_bind leaves_require fun _ => leaves_bind leaves_query fun _ =>
      leaves_bind (leaves_execute fun _ => apart _ _) fun _ => leaves_pure _

theorem EmbeddingMeta.leaves_load : Leaves part EmbeddingMeta.load := by
  intro s r t committed
  rw [(EmbeddingMeta.commits_load.mp committed).2]

variable (part) in
theorem EmbeddingMeta.leaves_require_present : Leaves part EmbeddingMeta.require_present := by
  intro s u t committed
  rw [(EmbeddingMeta.commits_require_present.mp committed).2]

variable (part) in
theorem EmbeddingMeta.leaves_record_if_absent (apart : ∀ t spaces, part { t with embedding_spaces := spaces } = part t)
    (candidate : EmbeddingFingerprint) (expected_dim : Nat) : Leaves part (EmbeddingMeta.record_if_absent candidate expected_dim) := by
  refine leaves_bind EmbeddingMeta.leaves_load fun stored => ?_
  cases stored with
  | some stored => exact leaves_bind leaves_require fun _ => leaves_pure _
  | none =>
    have upserted : Leaves part (EmbeddingSpaces.upsert_active_fingerprint candidate) := by
      refine leaves_bind leaves_require fun _ => leaves_bind leaves_query fun active => ?_
      cases active with
      | some _ => exact leaves_execute fun _ => apart _ _
      | none => exact leaves_bind leaves_query fun _ => leaves_bind leaves_require fun _ => leaves_execute fun _ => apart _ _
    exact leaves_bind leaves_require fun _ => leaves_bind upserted fun _ => leaves_pure _

end leaves

namespace FactStore
variable (self : SqliteBackend)

theorem keepsEdges_insert (fact : NewFact) : KeepsEdges (insert self fact) := by
  intro s id t committed
  obtain ⟨_,importance,_,_,written⟩ := commits_insert.mp committed
  rw [SameEdges,written]
  exact ⟨rfl,Int.le_of_lt (Int.lt_succ _)⟩

theorem keepsEdges_get (id : FactId) : KeepsEdges (get self id) := by
  intro s f t committed
  rw [(commits_get.mp committed).2.2]
  exact SameEdges.refl s

theorem keepsEdges_updateActive (id : FactId) (change : Fact → Fact) (same : ∀ f, (change f).id = f.id) :
    KeepsEdges (updateActive id change same) := by
  intro s u t committed
  rw [SameEdges,(commits_updateActive.mp committed).2]
  exact ⟨rfl,le_refl _⟩

theorem keepsEdges_expire (id : FactId) (now : DateTime) : KeepsEdges (expire id now) := keepsEdges_updateActive id _ _

theorem keepsEdges_updateRow (id : FactId) (change : Fact → Fact) (same : ∀ f, (change f).id = f.id) :
    KeepsEdges (updateRow id change same) := by
  intro s u t committed
  rw [SameEdges,(commits_updateRow.mp committed).2]
  exact ⟨rfl,le_refl _⟩

theorem keepsEdges_update_base_importance (id : FactId) (base_importance : F64) :
    KeepsEdges (update_base_importance id base_importance) := by
  cases base_importance with
  | nan =>
    refine keepsEdges_bind keepsEdges_query fun found => ?_
    cases found <;> exact keepsEdges_throw _
  | num importance => exact keepsEdges_updateRow id _ _

theorem keepsEdges_update_importance_scores_bulk (scores : List (FactId × F64)) :
    KeepsEdges (update_importance_scores_bulk self scores) := by
  unfold update_importance_scores_bulk
  split
  · exact keepsEdges_throw _
  · exact keepsEdges_execute (fun _ => rfl) (fun _ => le_refl _)

theorem keepsEdges_merge_metadata (id : FactId) (patch : Json) : KeepsEdges (merge_metadata id patch) := by
  unfold merge_metadata
  split
  · refine keepsEdges_bind ?_ fun _ => keepsEdges_updateRow id _ _
    intro s u t committed
    rw [(commits_requireMetadata.mp committed).2]
    exact SameEdges.refl s
  · exact keepsEdges_throw _

theorem keepsEdges_mark_dream_cycled (ids : List FactId) (cycle_id : Nat) (now : DateTime) :
    KeepsEdges (mark_dream_cycled ids cycle_id now) :=
  keepsEdges_foldlM (fun _ id => keepsEdges_merge_metadata id _) ids ()

end FactStore

namespace EmbeddingMeta

theorem keepsEdges_upsert_active_fingerprint (fp : EmbeddingFingerprint) :
    KeepsEdges (EmbeddingSpaces.upsert_active_fingerprint fp) := by
  refine keepsEdges_bind keepsEdges_require fun _ => keepsEdges_bind keepsEdges_query fun active => ?_
  cases active with
  | some _ => exact keepsEdges_execute (fun _ => rfl) (fun _ => le_refl _)
  | none =>
    refine keepsEdges_bind keepsEdges_query fun _ => keepsEdges_bind keepsEdges_require fun _ => ?_
    exact keepsEdges_execute (fun _ => rfl) (fun _ => le_refl _)

theorem keepsEdges_load : KeepsEdges load := by
  intro s r t committed
  rw [(commits_load.mp committed).2]
  exact SameEdges.refl s

theorem keepsEdges_record_if_absent (candidate : EmbeddingFingerprint) (expected_dim : Nat) :
    KeepsEdges (record_if_absent candidate expected_dim) := by
  refine keepsEdges_bind keepsEdges_load fun stored => ?_
  cases stored with
  | some stored => exact keepsEdges_bind keepsEdges_require fun _ => keepsEdges_pure _
  | none =>
    refine keepsEdges_bind keepsEdges_require fun _ => ?_
    exact keepsEdges_bind (keepsEdges_upsert_active_fingerprint candidate) fun _ => keepsEdges_pure _

theorem keepsEdges_require_present : KeepsEdges require_present := by
  intro s u t committed
  rw [(commits_require_present.mp committed).2]
  exact SameEdges.refl s

end EmbeddingMeta
end MemoryEngine
