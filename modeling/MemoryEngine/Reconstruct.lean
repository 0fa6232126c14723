import MemoryEngine.FactVectors
import MemoryEngine.Ingest

/-! Reconstruction. The content of every fact is embedded again under a new identity,
window by window, into a populating space, which is then promoted. -/

namespace MemoryEngine
open Time KeyedTable Transaction FactVectors

namespace Reconstruct

def DEFAULT_BACKFILL_BATCH : Nat := 128

/-- A slug of model, provider and dimension. -/
def space_name_for (fp : EmbeddingFingerprint) : String :=
  String.ofList ((fp.model.toList ++ '_' :: fp.provider.toList ++ ['_']).map fun ch => if ch.isAlphanum then ch else '_') ++ toString fp.dim

/-- The vectors of one window, each of the width of the target. -/
def embedWindow (embedder : EmbeddingProvider) (target_dim : Nat) (window : List (FactId × String)) :
    Except MemoryError (List (FactId × Embedding)) := do
  let embeddings ← embedder.embed_batch (window.map Prod.snd)
  if embeddings.length ≠ window.length then
    throw (.Internal s!"embed_batch returned {embeddings.length} vectors for {window.length} texts (provider contract violation)")
  else match embeddings.find? fun emb => emb.length != target_dim with
    | some emb => throw (.EmbeddingDimension target_dim emb.length)
    | none => return (window.map Prod.fst).zip embeddings

/-- The loop behind the cursor. Every round fills a fact, so fuel above the number of
    facts outlasts it. -/
def backfillFrom (space_name : String) (embedder : EmbeddingProvider) (target_dim batch_size : Nat) : Nat → FactId → Op Nat
  | 0,_ => return 0
  | fuel + 1,after_id => do
    let window ← port (next_backfill_window space_name after_id batch_size)
    match window.getLast? with
    | none => return 0
    | some last => do
      let rows ← embedWindow embedder target_dim window
      let written ← port (write_backfill_batch space_name rows)
      let rest ← backfillFrom space_name embedder target_dim batch_size fuel last.1
      return written + rest

def backfill_space (space_name : String) (embedder : EmbeddingProvider) (target_dim batch_size : Nat) : Op Nat := do
  let engine ← get
  backfillFrom space_name embedder target_dim batch_size (engine.storage.facts.rows.length + 1) 0

end Reconstruct

open Reconstruct

/-- The index of a brute-force store is the facts themselves, so nothing is rebuilt. -/
def reconstruct (ctx : MemoryCtx) (new_fingerprint : EmbeddingFingerprint) (embedder : EmbeddingProvider) : Op PromoteOutcome := do
  ctx.ensure_writable
  if new_fingerprint.dim ≠ embedder.fingerprint.dim then
    throw (.EmbeddingDimension new_fingerprint.dim embedder.fingerprint.dim)
  else do
    port (EmbeddingSpaces.begin_populating ⟨space_name_for new_fingerprint,new_fingerprint,.Populating⟩)
    let _ ← backfill_space (space_name_for new_fingerprint) embedder new_fingerprint.dim DEFAULT_BACKFILL_BATCH
    let stragglers ← backfill_space (space_name_for new_fingerprint) embedder new_fingerprint.dim DEFAULT_BACKFILL_BATCH
    let outcome ← port (promote_space (space_name_for new_fingerprint))
    return { outcome with stragglers_caught := stragglers }

/-- The handle after a promotion: fenced when its dimension is no longer the served one. -/
def MemoryCtx.fenced (ctx : MemoryCtx) (outcome : PromoteOutcome) : MemoryCtx :=
  if outcome.new_fingerprint.dim = ctx.backend.embed_dim then ctx else { ctx with reopen_required := outcome.new_fingerprint.dim }

namespace Reconstruct

/-- Batches of vectors of one width, each a transaction of its own. -/
inductive Backfills (space_name : String) (target_dim : Nat) (s : Db) : Db → Prop where
  | start : Backfills space_name target_dim s s
  | batch {m t : Db} {rows : List (FactId × Embedding)} {n : Nat} (before : Backfills space_name target_dim s m)
      (sized : ∀ row ∈ rows, row.2.length = target_dim) (written : Commits (write_backfill_batch space_name rows) m n t) :
      Backfills space_name target_dim s t

theorem Backfills.trans {space_name : String} {target_dim : Nat} {s m t : Db} (first : Backfills space_name target_dim s m)
    (second : Backfills space_name target_dim m t) : Backfills space_name target_dim s t := by
  induction second with
  | start => exact first
  | batch before sized written ih => exact .batch ih sized written

/-- One vector of the width of the target for each fact of the window. -/
theorem embedWindow_ok {embedder : EmbeddingProvider} {target_dim : Nat} {window : List (FactId × String)} {rows : List (FactId × Embedding)}
    (embedded : embedWindow embedder target_dim window = .ok rows) :
    rows.map Prod.fst = window.map Prod.fst ∧ ∀ row ∈ rows, row.2.length = target_dim := by
  unfold embedWindow at embedded
  cases made : embedder.embed_batch (window.map Prod.snd) with
  | error e =>
    rw [made] at embedded
    cases embedded
  | ok embeddings =>
    rw [made] at embedded
    change (if embeddings.length ≠ window.length then _ else _) = _ at embedded
    split at embedded
    · cases embedded
    · rename_i counted
      split at embedded
      · cases embedded
      · rename_i sized
        cases embedded
        refine ⟨List.map_fst_zip (by rw [List.length_map]; omega),fun row listed => ?_⟩
        have fits := List.find?_eq_none.mp sized _ (List.of_mem_zip listed).2
        simpa using fits

variable {space_name : String} {embedder : EmbeddingProvider} {target_dim batch_size : Nat}

theorem commits_backfillFrom {fuel : Nat} {after_id : FactId} {e e' : Engine} {n : Nat}
    (committed : Commits (backfillFrom space_name embedder target_dim batch_size fuel after_id) e n e') :
    Backfills space_name target_dim e.storage e'.storage := by
  induction fuel generalizing after_id e n with
  | zero =>
    obtain ⟨_,rfl⟩ := commits_pure.mp committed
    exact .start
  | succ fuel ih =>
    obtain ⟨window,_,fetched,rest⟩ := commits_bind.mp committed
    obtain ⟨_,queried,rfl⟩ := commits_port.mp fetched
    obtain ⟨_,rfl⟩ := commits_query.mp queried
    split at rest
    · obtain ⟨_,rfl⟩ := commits_pure.mp rest
      exact .start
    · obtain ⟨rows,_,embedded,writing⟩ := commits_bind.mp rest
      obtain ⟨made,rfl⟩ := commits_lift.mp embedded
      obtain ⟨k,_,ported,looping⟩ := commits_bind.mp writing
      obtain ⟨db,written,rfl⟩ := commits_port.mp ported
      obtain ⟨more,_,looped,last⟩ := commits_bind.mp looping
      obtain ⟨_,rfl⟩ := commits_pure.mp last
      exact (Backfills.batch .start (embedWindow_ok made).2 written).trans (ih looped)

theorem commits_backfill_space {e e' : Engine} {n : Nat} (committed : Commits (backfill_space space_name embedder target_dim batch_size) e n e') :
    Backfills space_name target_dim e.storage e'.storage := by
  obtain ⟨engine,_,read,looping⟩ := commits_bind.mp committed
  obtain ⟨rfl,rfl⟩ := commits_get.mp read
  exact commits_backfillFrom looping

/-- What a reconstruction is made of. -/
theorem commits_reconstruct {ctx : MemoryCtx} {new_fingerprint : EmbeddingFingerprint} {outcome : PromoteOutcome} {e e' : Engine}
    (committed : Commits (reconstruct ctx new_fingerprint embedder) e outcome e') : ∃ m m' promoted,
      Commits (EmbeddingSpaces.begin_populating ⟨space_name_for new_fingerprint,new_fingerprint,.Populating⟩) e.storage () m ∧
        Backfills (space_name_for new_fingerprint) new_fingerprint.dim m m' ∧
          Commits (promote_space (space_name_for new_fingerprint)) m' promoted e'.storage ∧
            outcome.new_fingerprint = promoted.new_fingerprint := by
  obtain ⟨_,_,gated,body⟩ := commits_bind.mp committed
  obtain ⟨_,rfl⟩ := commits_lift.mp gated
  split at body
  · exact absurd body commits_throw
  · obtain ⟨_,_,opened,filling⟩ := commits_bind.mp body
    obtain ⟨m,begun,rfl⟩ := commits_port.mp opened
    obtain ⟨_,e₁,filled,catching⟩ := commits_bind.mp filling
    obtain ⟨_,e₂,caught,promoting⟩ := commits_bind.mp catching
    obtain ⟨promoted,_,ported,last⟩ := commits_bind.mp promoting
    obtain ⟨db,swapped,rfl⟩ := commits_port.mp ported
    obtain ⟨rfl,rfl⟩ := commits_pure.mp last
    exact ⟨m,e₂.storage,promoted,begun,(commits_backfill_space filled).trans (commits_backfill_space caught),swapped,rfl⟩

end Reconstruct
end MemoryEngine
