import MemoryEngine.Ingest
import MemoryEngine.ScopeMirror

/-! The scope tree under ingest. An operation that caches the whole chain of its
scope keeps the tree equal to the table; a batch caches the named scopes alone
and keeps it equal only when every scope above them is known. -/

namespace MemoryEngine
open Time KeyedTable Transaction Tables Ingest

/-- The scope tree holds exactly the rows of the scope table. -/
structure Engine.ScopesMirrored (engine : Engine) : Prop where
  rooted : engine.storage.Rooted
  holds : engine.scope_tree.Holds (fun n => n ∈ engine.storage.scopes.rows)

/-- Every path whose rows exist, so that `ensure_path` inserts nothing, resolves
    to the id that `ensure_path` returns. -/
def Engine.Resolves (engine : Engine) : Prop := ∀ path id,
  Commits (ScopeStore.ensure_path path) engine.storage id engine.storage → engine.scope_tree.resolve_path path = some id

theorem Engine.ScopesMirrored.resolves {engine : Engine} (mirrored : engine.ScopesMirrored) : engine.Resolves := by
  intro path id committed
  have ensured := ScopeStore.ensured mirrored.rooted committed
  rw [ScopeTree.resolve_path_of_labels ensured.labels,mirrored.holds.resolveFrom ensured.labels]
  exact ensured.path

/-! The chain that single-scope operations cache. -/

/-- The walk from a row collects every row on the path to it. -/
theorem commits_scopeChain {fuel : Nat} {seen : List Int} {segs : List String} {id : Int} {s t : Engine} {nodes : List ScopeNode}
    (rooted : s.storage.Rooted) (path : s.storage.descend 1 segs = some id) (enough : segs.length < fuel)
    (below : ∀ x ∈ seen, id < x) (committed : Commits (scopeChain fuel seen (some id)) s nodes t) :
    t = s ∧ (∀ n ∈ nodes, n ∈ s.storage.scopes.rows) ∧ ∀ n ∈ s.storage.scopes.rows, ∀ k, 0 < k → k ≤ segs.length →
      s.storage.descend 1 (segs.take k) = some n.id → n ∈ nodes := by
  induction segs using List.reverseRecOn generalizing fuel seen id nodes with
  | nil =>
    cases path
    cases fuel with
    | zero => exact absurd enough (Nat.not_lt_zero _)
    | succ fuel =>
      obtain ⟨rfl,rfl⟩ := commits_pure.mp committed
      exact ⟨rfl,by simp,fun n _ k positive within => absurd within (by simp; omega)⟩
  | append_singleton rest label ih =>
    obtain ⟨parent,path',n,member,parented,_,rfl⟩ := (descend_snoc s.storage).mp path
    rw [List.length_append,List.length_singleton] at enough
    cases fuel with
    | zero => exact absurd enough (Nat.not_lt_zero _)
    | succ fuel =>
      have moving : ¬ (n.id = ScopeTree.ROOT_ID ∨ n.id ∈ seen) := by
        rintro (root | again)
        · rw [rooted.top n member root] at parented
          cases parented
        · exact lt_irrefl _ (below n.id again)
      rw [scopeChain,if_neg moving] at committed
      obtain ⟨node,_,read,rest₁⟩ := commits_bind.mp committed
      obtain ⟨db,got,rfl⟩ := commits_port.mp read
      obtain ⟨held,here,rfl⟩ := ScopeStore.commits_get.mp got
      obtain rfl := s.storage.scopes.key_unique held member here
      obtain ⟨above,_,walked,last⟩ := commits_bind.mp rest₁
      obtain ⟨rfl,rfl⟩ := commits_pure.mp last
      rw [parented] at walked
      have less : parent < node.id := rooted.climbs node member parent (by rw [parented]; rfl)
      have lower : ∀ x ∈ node.id :: seen, parent < x := by
        intro x listed
        rcases List.mem_cons.mp listed with rfl | earlier
        · exact less
        · exact less.trans (below x earlier)
      obtain ⟨rfl,rows,covered⟩ := ih path' (by omega) lower walked
      refine ⟨rfl,?_,?_⟩
      · intro m listed
        rcases List.mem_cons.mp listed with rfl | upper
        · exact member
        · exact rows m upper
      · intro m held k positive within reached
        rw [List.length_append,List.length_singleton] at within
        by_cases whole : k ≤ rest.length
        · rw [List.take_append_of_le_length whole] at reached
          exact List.mem_cons_of_mem _ (covered m held k positive whole reached)
        · have all : k = (rest ++ [label]).length := by simp; omega
          rw [all,List.take_length,path] at reached
          have same := t.storage.scopes.key_unique member held (Option.some.inj reached)
          rw [same]
          exact List.mem_cons_self

theorem commits_cacheNodes {nodes : List ScopeNode} {s t : Engine} {u : Unit} :
    Commits (cacheNodes nodes) s u t ↔ t = { s with scope_tree := nodes.foldl ScopeTree.insert s.scope_tree } := by
  change Except.ok ((),_) = Except.ok (u,t) ↔ _
  simp only [Except.ok.injEq,Prod.mk.injEq]
  exact ⟨fun both => both.2.symm,fun same => ⟨trivial,same.symm⟩⟩

/-- Caching the chain after the path was ensured makes the tree whole again. -/
theorem mirrored_cache_scope_chain {old : Db} {segs : List String} {id : Int} {s t : Engine} {u : Unit}
    (ensured : Ensured old s.storage 1 segs id) (holds : s.scope_tree.Holds (fun n => n ∈ old.scopes.rows))
    (committed : Commits (cache_scope_chain id) s u t) : t.storage = s.storage ∧ t.ScopesMirrored := by
  obtain ⟨_,_,seen,rest⟩ := commits_bind.mp committed
  obtain ⟨rfl,rfl⟩ := commits_get.mp seen
  obtain ⟨nodes,m,walked,last⟩ := commits_bind.mp rest
  have short := Nat.lt_succ_of_le (Nat.le_of_lt (Nat.lt_of_lt_of_le (descend_length ensured.rooted ensured.path) List.countP_le_length))
  obtain ⟨rfl,rows,covered⟩ := commits_scopeChain ensured.rooted ensured.path short (by simp) walked
  obtain rfl := commits_cacheNodes.mp last
  refine ⟨rfl,ensured.rooted,?_⟩
  refine (holds.insertAll (fun n held => ensured.kept n held) rows).congr fun n => ?_
  constructor
  · rintro (held | walked)
    · exact ensured.kept n held
    · exact rows n walked
  · intro member
    by_cases held : n ∈ old.scopes.rows
    · exact .inl held
    · obtain ⟨k,positive,within,path⟩ := ensured.along n member held
      exact .inr (covered n member k positive within path)

theorem Ensured.congr {s m t : Db} {parent : Int} {segs : List String} {id : Int} (ensured : Ensured s m parent segs id)
    (same : t.scopes = m.scopes) : Ensured s t parent segs id where
  rooted := ensured.rooted.congr same
  kept := by rw [same]; exact ensured.kept
  labels := ensured.labels
  path := by rw [descend_congr same]; exact ensured.path
  along := by
    rw [same]
    intro n member fresh
    obtain ⟨k,positive,within,path⟩ := ensured.along n member fresh
    exact ⟨k,positive,within,by rw [descend_congr same]; exact path⟩

theorem Engine.ScopesMirrored.congr {s t : Engine} (mirrored : s.ScopesMirrored) (tree : t.scope_tree = s.scope_tree)
    (same : t.storage.scopes = s.storage.scopes) : t.ScopesMirrored := by
  refine ⟨mirrored.rooted.congr same,?_⟩
  rw [tree,same]
  exact mirrored.holds

theorem mirrored_factScope {scope : Option String} {s t : Engine} {id : Int} (mirrored : s.ScopesMirrored)
    (committed : Commits (factScope scope) s id t) : t.ScopesMirrored := by
  cases scope with
  | none =>
    obtain ⟨_,rfl⟩ := commits_pure.mp committed
    exact mirrored
  | some path =>
    obtain ⟨leaf,_,ported,rest⟩ := commits_bind.mp committed
    obtain ⟨db,ensured,rfl⟩ := commits_port.mp ported
    obtain ⟨_,m,cached,last⟩ := commits_bind.mp rest
    obtain ⟨rfl,rfl⟩ := commits_pure.mp last
    have grown := ScopeStore.ensured mirrored.rooted ensured
    exact (mirrored_cache_scope_chain (by exact grown) (by exact mirrored.holds) cached).2

theorem leaves_insert_fact_atomic {self : SqliteBackend} (fact : NewFact) (fingerprint : EmbeddingFingerprint) (expected_dim : Nat) :
    Leaves Tables.scopes (insert_fact_atomic self fact fingerprint expected_dim) :=
  leaves_bind (EmbeddingMeta.leaves_record_if_absent _ (fun _ _ => rfl) _ _) fun _ =>
    FactStore.leaves_insert _ self (fun _ _ => rfl) _

theorem mirrored_insert_fact_with_embedding {ctx : MemoryCtx} {req : AddFactRequest} {embedding : Embedding}
    {classifier : Option PersistenceClassifier} {fingerprint : EmbeddingFingerprint} {now : DateTime} {s t : Engine} {id : FactId}
    (mirrored : s.ScopesMirrored)
    (committed : Commits (insert_fact_with_embedding ctx req embedding classifier fingerprint now) s id t) : t.ScopesMirrored := by
  obtain ⟨scope_id,m,resolved,rest⟩ := commits_bind.mp committed
  obtain ⟨db,inserted,rfl⟩ := commits_port.mp rest
  exact (mirrored_factScope mirrored resolved).congr rfl (leaves_insert_fact_atomic _ _ _ _ _ _ inserted)

theorem mirrored_add_fact {ctx : MemoryCtx} {req : AddFactRequest} {embedder : EmbeddingProvider}
    {classifier : Option PersistenceClassifier} {now : DateTime} {s t : Engine} {id : FactId} (mirrored : s.ScopesMirrored)
    (committed : Commits (add_fact ctx req embedder classifier now) s id t) : t.ScopesMirrored := by
  obtain ⟨_,_,opened,rest₁⟩ := commits_bind.mp committed
  obtain ⟨_,rfl⟩ := commits_lift.mp opened
  obtain ⟨_,_,writable,rest₂⟩ := commits_bind.mp rest₁
  obtain ⟨_,rfl⟩ := commits_lift.mp writable
  obtain ⟨_,_,validated,rest₃⟩ := commits_bind.mp rest₂
  obtain ⟨_,rfl⟩ := commits_lift.mp validated
  obtain ⟨embedding,_,embedded,rest₄⟩ := commits_bind.mp rest₃
  obtain ⟨_,rfl⟩ := commits_lift.mp embedded
  exact mirrored_insert_fact_with_embedding mirrored rest₄

theorem mirrored_add_fact_precomputed {ctx : MemoryCtx} {req : AddFactRequest} {embedding : Embedding}
    {declared : EmbeddingFingerprint} {classifier : Option PersistenceClassifier} {now : DateTime} {s t : Engine} {id : FactId}
    (mirrored : s.ScopesMirrored) (committed : Commits (add_fact_precomputed ctx req embedding declared classifier now) s id t) :
    t.ScopesMirrored := by
  obtain ⟨_,_,opened,rest₁⟩ := commits_bind.mp committed
  obtain ⟨_,rfl⟩ := commits_lift.mp opened
  obtain ⟨_,_,writable,rest₂⟩ := commits_bind.mp rest₁
  obtain ⟨_,rfl⟩ := commits_lift.mp writable
  obtain ⟨_,_,validated,rest₃⟩ := commits_bind.mp rest₂
  obtain ⟨_,rfl⟩ := commits_lift.mp validated
  exact mirrored_insert_fact_with_embedding mirrored rest₃

theorem mirrored_ensure_scope_path {ctx : MemoryCtx} {path : String} {s t : Engine} {id : Int} (mirrored : s.ScopesMirrored)
    (committed : Commits (ensure_scope_path ctx path) s id t) : t.ScopesMirrored := by
  obtain ⟨_,_,writable,rest⟩ := commits_bind.mp committed
  obtain ⟨_,rfl⟩ := commits_lift.mp writable
  exact mirrored_factScope mirrored (show Commits (factScope (some path)) _ id t from rest)

/-- The scopes of a promotion are those its path asks for. -/
theorem promoted_scopes {self : SqliteBackend} {fact : NewFact} {scope_path : Option String} {source_fact_ids : List FactId}
    {provenance : PromotionProvenance} {s t : Db} {r : PromotionResult × List Int}
    (committed : Commits (promote_atomic self fact scope_path source_fact_ids provenance) s r t) :
    ∃ m scope_id, Commits (promotedScope scope_path) s (scope_id,r.2) m ∧ t.scopes = m.scopes := by
  obtain ⟨_,_,present,rest₁⟩ := commits_bind.mp committed
  obtain ⟨_,rfl⟩ := EmbeddingMeta.commits_require_present.mp present
  obtain ⟨scope,m,resolved,rest₂⟩ := commits_bind.mp rest₁
  obtain ⟨fact_id,_,inserted,rest₃⟩ := commits_bind.mp rest₂
  obtain ⟨lineage_id,_,recorded,last⟩ := commits_bind.mp rest₃
  obtain ⟨rfl,rfl⟩ := commits_pure.mp last
  have filled := FactStore.leaves_insert Tables.scopes self (fun _ _ => rfl) _ _ _ _ inserted
  have traced := LineageStore.leaves_insert Tables.scopes (fun _ _ => rfl) _ _ _ _ _ recorded
  exact ⟨m,scope.1,resolved,traced.trans filled⟩

theorem mirrored_promote {ctx : MemoryCtx} {req : PromoteRequest} {now : DateTime} {s t : Engine} {r : PromotionResult}
    (mirrored : s.ScopesMirrored) (committed : Commits (promote_with_lineage ctx req now) s r t) : t.ScopesMirrored := by
  unfold promote_with_lineage at committed
  split at committed
  · exact absurd committed commits_throw
  · obtain ⟨_,_,writable,rest₁⟩ := commits_bind.mp committed
    obtain ⟨_,rfl⟩ := commits_lift.mp writable
    obtain ⟨⟨result,scope_ids⟩,_,ported,rest₂⟩ := commits_bind.mp rest₁
    obtain ⟨db,promoted,rfl⟩ := commits_port.mp ported
    obtain ⟨_,m,cached,last⟩ := commits_bind.mp rest₂
    obtain ⟨rfl,rfl⟩ := commits_pure.mp last
    obtain ⟨m₁,scope_id,resolved,kept⟩ := promoted_scopes promoted
    cases scope : req.scope with
    | none =>
      rw [scope] at resolved
      obtain ⟨same,rfl⟩ := commits_pure.mp resolved
      cases same
      obtain ⟨_,rfl⟩ := commits_pure.mp cached
      exact mirrored.congr rfl kept
    | some path =>
      rw [scope] at resolved
      obtain ⟨id,_,ensured,last⟩ := commits_bind.mp resolved
      obtain ⟨same,rfl⟩ := commits_pure.mp last
      cases same
      obtain ⟨_,_,chained,done⟩ := commits_bind.mp cached
      obtain ⟨_,rfl⟩ := commits_pure.mp done
      have grown := (ScopeStore.ensured mirrored.rooted ensured).congr kept
      exact (mirrored_cache_scope_chain (by exact grown) (by exact mirrored.holds) chained).2

/-! Batches. -/

/-- What the scope loop of a batch has done for the paths met so far. -/
structure ResolvedTo (s t : Db) (met : List String) (scope_cache : List (String × Int)) : Prop where
  rooted : t.Rooted
  kept : ∀ n ∈ s.scopes.rows, n ∈ t.scopes.rows
  cached : ∀ path ∈ met, ∃ id, (path,id) ∈ scope_cache
  entries : ∀ entry ∈ scope_cache, entry.1 ∈ met ∧ (∀ segment ∈ segments entry.1, ValidLabel segment) ∧
    t.descend 1 (segments entry.1) = some entry.2
  along : ∀ n ∈ t.scopes.rows, n ∉ s.scopes.rows → ∃ path ∈ met, ∃ k, 0 < k ∧ k ≤ (segments path).length ∧
    t.descend 1 ((segments path).take k) = some n.id

theorem resolvedTo_entry {s m t : Db} {met : List String} {acc acc' : ResolvedScopes} {scope : Option String}
    (before : ResolvedTo s m met acc.scope_cache) (committed : Commits (resolveEntry acc scope) m acc' t) :
    ResolvedTo s t (met ++ scope.toList) acc'.scope_cache := by
  cases scope with
  | none =>
    obtain ⟨rfl,rfl⟩ := commits_pure.mp committed
    rw [Option.toList_none,List.append_nil]
    exact before
  | some path =>
    rw [Option.toList_some]
    have extended : ∀ entry ∈ acc.scope_cache, entry.1 ∈ met ++ [path] :=
      fun entry listed => List.mem_append_left _ (before.entries entry listed).1
    unfold resolveEntry at committed
    dsimp only at committed
    split at committed
    · rename_i cached found
      obtain ⟨rfl,rfl⟩ := commits_pure.mp committed
      have listed : (path,cached) ∈ acc.scope_cache := by
        obtain ⟨front,back,split,_⟩ := List.lookup_eq_some_iff.mp found
        rw [split]
        exact List.mem_append_right _ List.mem_cons_self
      refine ⟨before.rooted,before.kept,?_,fun entry held => ⟨extended entry held,(before.entries entry held).2⟩,?_⟩
      · intro other met'
        rcases List.mem_append.mp met' with earlier | here
        · exact before.cached other earlier
        · rw [List.mem_singleton.mp here]
          exact ⟨cached,listed⟩
      · intro n member fresh
        obtain ⟨other,earlier,way⟩ := before.along n member fresh
        exact ⟨other,List.mem_append_left _ earlier,way⟩
    · obtain ⟨id,_,ensured,last⟩ := commits_bind.mp committed
      obtain ⟨rfl,rfl⟩ := commits_pure.mp last
      have grown := ScopeStore.ensured before.rooted ensured
      refine ⟨grown.rooted,fun n old => grown.kept n (before.kept n old),?_,?_,?_⟩
      · intro other met'
        rcases List.mem_append.mp met' with earlier | here
        · obtain ⟨old,listed⟩ := before.cached other earlier
          exact ⟨old,List.mem_append_left _ listed⟩
        · rw [List.mem_singleton.mp here]
          exact ⟨id,List.mem_append_right _ (List.mem_singleton_self _)⟩
      · intro entry listed
        rcases List.mem_append.mp listed with earlier | here
        · obtain ⟨_,labels,path'⟩ := before.entries entry earlier
          exact ⟨extended entry earlier,labels,descend_mono grown.kept path'⟩
        · rw [List.mem_singleton.mp here]
          exact ⟨List.mem_append_right _ (List.mem_singleton_self _),grown.labels,grown.path⟩
      · intro n member fresh
        by_cases early : n ∈ m.scopes.rows
        · obtain ⟨other,earlier,k,positive,within,way⟩ := before.along n early fresh
          exact ⟨other,List.mem_append_left _ earlier,k,positive,within,descend_mono grown.kept way⟩
        · obtain ⟨k,positive,within,way⟩ := grown.along n member early
          exact ⟨path,List.mem_append_right _ (List.mem_singleton_self _),k,positive,within,way⟩

theorem resolvedTo_entries {s m t : Db} {scope_paths : List (Option String)} {met : List String} {acc acc' : ResolvedScopes}
    (before : ResolvedTo s m met acc.scope_cache) (committed : Commits (scope_paths.foldlM resolveEntry acc) m acc' t) :
    ResolvedTo s t (met ++ scope_paths.flatMap Option.toList) acc'.scope_cache := by
  induction scope_paths generalizing m met acc with
  | nil =>
    obtain ⟨rfl,rfl⟩ := commits_pure.mp committed
    rw [List.flatMap_nil,List.append_nil]
    exact before
  | cons scope rest ih =>
    rw [List.foldlM_cons] at committed
    obtain ⟨next,m',first,tail⟩ := commits_bind.mp committed
    rw [List.flatMap_cons,← List.append_assoc]
    exact ih (resolvedTo_entry before first) tail

theorem leaves_insertEntries {self : SqliteBackend} (entries : List (NewFact × Int)) :
    Leaves Tables.scopes (insertEntries self entries) :=
  leaves_foldlM (fun _ _ => leaves_bind (FactStore.leaves_insert _ self (fun _ _ => rfl) _) fun _ => leaves_pure _) entries []

theorem ResolvedTo.congr {s m t : Db} {met : List String} {scope_cache : List (String × Int)} (resolved : ResolvedTo s m met scope_cache)
    (same : t.scopes = m.scopes) : ResolvedTo s t met scope_cache where
  rooted := resolved.rooted.congr same
  kept := by rw [same]; exact resolved.kept
  cached := resolved.cached
  entries := fun entry listed => by rw [descend_congr same]; exact resolved.entries entry listed
  along := by
    rw [same]
    intro n member fresh
    obtain ⟨path,listed,k,positive,within,way⟩ := resolved.along n member fresh
    exact ⟨path,listed,k,positive,within,by rw [descend_congr same]; exact way⟩

/-- The transaction of a batch grows the table along its scope paths. -/
theorem resolvedTo_batch {self : SqliteBackend} {facts : List NewFact} {scope_paths : List (Option String)}
    {fingerprint : EmbeddingFingerprint} {expected_dim : Nat} {s t : Db} {r : List FactId × List Int} (rooted : s.Rooted)
    (committed : Commits (insert_facts_batch_atomic self facts scope_paths fingerprint expected_dim) s r t) :
    ∃ scope_cache, r.2 = scope_cache.map Prod.snd ∧ ResolvedTo s t (scope_paths.flatMap Option.toList) scope_cache := by
  obtain ⟨_,_,paired,rest₁⟩ := commits_bind.mp committed
  obtain ⟨_,rfl⟩ := commits_require.mp paired
  obtain ⟨_,m₁,stamped,rest₂⟩ := commits_bind.mp rest₁
  have stamp := EmbeddingMeta.leaves_record_if_absent Tables.scopes (fun _ _ => rfl) _ _ _ _ _ stamped
  obtain ⟨resolved,m₂,looped,rest₃⟩ := commits_bind.mp rest₂
  obtain ⟨ids,m₃,filled,last⟩ := commits_bind.mp rest₃
  obtain ⟨rfl,rfl⟩ := commits_pure.mp last
  have start : ResolvedTo m₁ m₁ [] [] :=
    ⟨rooted.congr stamp,fun n member => member,by simp,by simp,fun n member fresh => absurd member fresh⟩
  have grown := (resolvedTo_entries start looped).congr (leaves_insertEntries _ _ _ _ filled)
  refine ⟨resolved.scope_cache,rfl,grown.rooted,?_,grown.cached,grown.entries,?_⟩
  · rw [← stamp]
    exact grown.kept
  · rw [← stamp]
    exact grown.along

theorem commits_readNode {sid : Int} {s t : Engine} {nodes : List ScopeNode} (has : s.storage.scopes.Has sid)
    (committed : Commits (readNode sid) s nodes t) :
    t = s ∧ ∃ n ∈ s.storage.scopes.rows, n.id = sid ∧ nodes = [n] := by
  obtain ⟨r,m,attempted,rest⟩ := commits_bind.mp committed
  obtain ⟨row,member,here⟩ := has
  have reads : Commits (port (ScopeStore.get sid)) s row s :=
    commits_port.mpr ⟨s.storage,ScopeStore.commits_get.mpr ⟨member,here,rfl⟩,rfl⟩
  rcases commits_attempt.mp attempted with ⟨node,rfl,got⟩ | ⟨e,rfl,failed,rfl⟩
  · obtain ⟨rfl,rfl⟩ := commits_pure.mp rest
    unfold Commits at got reads
    rw [reads] at got
    cases got
    exact ⟨rfl,row,member,here,rfl⟩
  · unfold Commits at reads
    rw [reads] at failed
    cases failed

theorem commits_readNodes {ids : List Int} {nodes nodes' : List ScopeNode} {s t : Engine} (has : ∀ id ∈ ids, s.storage.scopes.Has id)
    (committed : Commits (ids.foldlM (fun nodes sid => do return nodes ++ (← readNode sid)) nodes) s nodes' t) :
    t = s ∧ ∀ n, n ∈ nodes' ↔ n ∈ nodes ∨ n ∈ s.storage.scopes.rows ∧ n.id ∈ ids := by
  induction ids generalizing nodes with
  | nil =>
    obtain ⟨rfl,rfl⟩ := commits_pure.mp committed
    exact ⟨rfl,by simp⟩
  | cons sid rest ih =>
    obtain ⟨here,has⟩ := List.forall_mem_cons.mp has
    rw [List.foldlM_cons] at committed
    obtain ⟨next,_,first,tail⟩ := commits_bind.mp committed
    obtain ⟨one,_,read,last⟩ := commits_bind.mp first
    obtain ⟨rfl,row,member,same,rfl⟩ := commits_readNode here read
    obtain ⟨rfl,rfl⟩ := commits_pure.mp last
    obtain ⟨rfl,listed⟩ := ih has tail
    refine ⟨rfl,fun n => ?_⟩
    rw [listed,List.mem_append,List.mem_singleton,or_assoc,List.mem_cons]
    refine or_congr_right ?_
    constructor
    · rintro (rfl | ⟨held,later⟩)
      · exact ⟨member,.inl same⟩
      · exact ⟨held,.inr later⟩
    · rintro ⟨held,here | later⟩
      · exact .inl (t.storage.scopes.key_unique held member (here.trans same.symm))
      · exact .inr ⟨held,later⟩

/-- After a batch the tree has gained the named scopes and no others. -/
structure BatchCached (s t : Engine) (paths : List String) : Prop where
  rooted : t.storage.Rooted
  kept : ∀ n ∈ s.storage.scopes.rows, n ∈ t.storage.scopes.rows
  named : ∀ path ∈ paths, (∀ segment ∈ segments path, ValidLabel segment) ∧ ∃ id, t.storage.descend 1 (segments path) = some id
  along : ∀ n ∈ t.storage.scopes.rows, n ∉ s.storage.scopes.rows → ∃ path ∈ paths, ∃ k, 0 < k ∧ k ≤ (segments path).length ∧
    t.storage.descend 1 ((segments path).take k) = some n.id
  holds : t.scope_tree.Holds (fun n => n ∈ s.storage.scopes.rows ∨
    n ∈ t.storage.scopes.rows ∧ ∃ path ∈ paths, t.storage.descend 1 (segments path) = some n.id)

theorem batchCached {s m t : Engine} {paths : List String} {scope_cache : List (String × Int)} {u : Unit}
    (holds : m.scope_tree.Holds (fun n => n ∈ s.storage.scopes.rows)) (resolved : ResolvedTo s.storage m.storage paths scope_cache)
    (committed : Commits (cacheLeaves (scope_cache.map Prod.snd)) m u t) : BatchCached s t paths := by
  obtain ⟨nodes,_,read,last⟩ := commits_bind.mp committed
  have has : ∀ id ∈ scope_cache.map Prod.snd, m.storage.scopes.Has id := by
    intro id listed
    obtain ⟨entry,among,rfl⟩ := List.mem_map.mp listed
    exact descend_has resolved.rooted (resolved.entries entry among).2.2
  obtain ⟨rfl,listed⟩ := commits_readNodes has read
  obtain rfl := commits_cacheNodes.mp last
  refine ⟨resolved.rooted,resolved.kept,?_,resolved.along,?_⟩
  · intro path among
    obtain ⟨id,entry⟩ := resolved.cached path among
    exact ⟨(resolved.entries _ entry).2.1,id,(resolved.entries _ entry).2.2⟩
  · refine (holds.insertAll resolved.kept fun n member => ?_).congr fun n => ?_
    · rcases (listed n).mp member with none | ⟨held,_⟩
      · cases none
      · exact held
    · rw [listed]
      simp only [List.not_mem_nil,false_or]
      refine or_congr_right (and_congr_right fun held => ?_)
      constructor
      · intro among
        obtain ⟨entry,cached,same⟩ := List.mem_map.mp among
        obtain ⟨met,_,path⟩ := resolved.entries entry cached
        exact ⟨entry.1,met,by rw [path,same]⟩
      · rintro ⟨path,met,way⟩
        obtain ⟨id,cached⟩ := resolved.cached path met
        have way' := (resolved.entries _ cached).2.2
        rw [way] at way'
        exact List.mem_map.mpr ⟨_,cached,(Option.some.inj way').symm⟩

/-- Every scope above a named one is known already or is named itself. -/
def AncestorsKnown (paths : List String) (t : Tables) : Prop := ∀ path ∈ paths, ∀ k, 0 < k → k < (segments path).length →
  t.descend 1 ((segments path).take k) ≠ none ∨ ∃ other ∈ paths, segments other = (segments path).take k

theorem BatchCached.mirrored {s t : Engine} {paths : List String} (cached : BatchCached s t paths)
    (known : AncestorsKnown paths s.storage.toTables) : t.ScopesMirrored := by
  refine ⟨cached.rooted,cached.holds.congr fun n => ⟨?_,fun member => ?_⟩⟩
  · rintro (old | ⟨member,_⟩)
    · exact cached.kept n old
    · exact member
  · by_cases old : n ∈ s.storage.scopes.rows
    · exact .inl old
    obtain ⟨path,named,k,positive,within,way⟩ := cached.along n member old
    rcases Nat.lt_or_eq_of_le within with proper | whole
    · rcases known path named k positive proper with above | ⟨other,named',same⟩
      · obtain ⟨id,way'⟩ := Option.ne_none_iff_exists'.mp above
        have later := descend_mono cached.kept way'
        rw [way] at later
        -- a row that a path of the old table reaches is an old row
        have has : s.storage.scopes.Has n.id := by
          rw [Option.some.inj later]
          cases split : (segments path).take k using List.reverseRecOn with
          | nil =>
            have empty := congrArg List.length split
            rw [List.length_take,Nat.min_eq_left within] at empty
            exact absurd empty (by simp; omega)
          | append_singleton front label _ =>
            rw [split] at way'
            obtain ⟨_,_,row,held,_,_,rfl⟩ := (descend_snoc s.storage).mp way'
            exact Table.has_of_mem held
        obtain ⟨row,held,same⟩ := has
        have one := t.storage.scopes.key_unique (cached.kept row held) member same
        rw [one] at held
        exact absurd held old
      · exact .inr ⟨member,other,named',by rw [same]; exact way⟩
    · rw [whole,List.take_length] at way
      exact .inr ⟨member,path,named,way⟩

/-- A batch that leaves the tree able to resolve every path had its ancestors
    known: what it created above the named scopes is not in the tree. -/
theorem BatchCached.known {s t : Engine} {paths : List String} (cached : BatchCached s t paths) (resolves : t.Resolves) :
    AncestorsKnown paths s.storage.toTables := by
  intro path named k positive proper
  obtain ⟨labels,id,way⟩ := cached.named path named
  have above : ∃ above_id, t.storage.descend 1 ((segments path).take k) = some above_id := by
    rw [← List.take_append_drop k (segments path),descend_append] at way
    cases reached : t.storage.descend 1 ((segments path).take k) with
    | none =>
      rw [reached] at way
      cases way
    | some above_id => exact ⟨above_id,rfl⟩
  obtain ⟨above_id,reached⟩ := above
  have labels' : ∀ segment ∈ (segments path).take k, ValidLabel segment :=
    fun segment listed => labels segment (List.mem_of_mem_take listed)
  have nonempty : (segments path).take k ≠ [] := by
    intro empty
    have length := congrArg List.length empty
    rw [List.length_take,Nat.min_eq_left (Nat.le_of_lt proper)] at length
    exact absurd length (by simp; omega)
  have split := segments_joined labels' nonempty
  have exists_ : Commits (ScopeStore.ensure_path (joined ((segments path).take k))) t.storage above_id t.storage :=
    ScopeStore.ensure_path_of_path (by rw [split]; exact labels') (by rw [split]; exact reached)
  have resolved := resolves _ _ exists_
  rw [ScopeTree.resolve_path_of_labels (by rw [split]; exact labels'),split] at resolved
  have within : ∀ n, (n ∈ s.storage.scopes.rows ∨ n ∈ t.storage.scopes.rows ∧
      ∃ path ∈ paths, t.storage.descend 1 (segments path) = some n.id) → n ∈ t.storage.scopes.rows := by
    rintro n (old | ⟨member,_⟩)
    · exact cached.kept n old
    · exact member
  obtain ⟨n,member | ⟨_,other,named',way'⟩,rfl⟩ := cached.holds.resolved within resolved nonempty
  · left
    rw [descend_of_has cached.kept reached (Table.has_of_mem member)]
    simp
  · right
    exact ⟨other,named',descend_inj cached.rooted way' reached⟩

/-- The scope paths that the entries name. -/
def scopePaths (entries : List AddFactRequest) : List String := entries.filterMap AddFactRequest.scope

theorem batchPaths_eq {entries : List AddFactRequest} {embeddings : List Embedding} (counted : embeddings.length = entries.length)
    (classifier : Option PersistenceClassifier) :
    batchPaths entries embeddings (compute_batch_pins entries classifier) = entries.map AddFactRequest.scope :=
  map_triples counted classifier AddFactRequest.scope

theorem flatMap_scopes (entries : List AddFactRequest) :
    (entries.map AddFactRequest.scope).flatMap Option.toList = scopePaths entries := by
  rw [scopePaths,List.filterMap_eq_flatMap_toList,List.flatMap_map]

theorem batchCached_insert {ctx : MemoryCtx} {entries : List AddFactRequest} {embedder : EmbeddingProvider}
    {classifier : Option PersistenceClassifier} {now : DateTime} {s t : Engine} {ids : List FactId} (mirrored : s.ScopesMirrored)
    (committed : Commits (insert_validated_batch ctx entries embedder classifier now) s ids t) :
    BatchCached s t (scopePaths entries) := by
  obtain ⟨embeddings,_,embedded,rest₁⟩ := commits_bind.mp committed
  obtain ⟨_,rfl⟩ := commits_lift.mp embedded
  split at rest₁
  · exact absurd rest₁ commits_throw
  · rename_i counted
    obtain ⟨⟨ids',scope_ids⟩,_,ported,rest₂⟩ := commits_bind.mp rest₁
    obtain ⟨db,inserted,rfl⟩ := commits_port.mp ported
    obtain ⟨scope_cache,same,resolved⟩ := resolvedTo_batch mirrored.rooted inserted
    rw [batchPaths_eq (not_not.mp counted),flatMap_scopes] at resolved
    have ids_eq : scope_ids = scope_cache.map Prod.snd := same
    subst ids_eq
    dsimp only at rest₂
    split at rest₂
    · exact absurd rest₂ commits_throw
    · obtain ⟨_,_,cached,last⟩ := commits_bind.mp rest₂
      obtain ⟨_,rfl⟩ := commits_pure.mp last
      exact batchCached (by exact mirrored.holds) (by exact resolved) cached

/-- A call of one of the ingest operations. -/
inductive IngestCall where
  | add_fact (req : AddFactRequest) (embedder : EmbeddingProvider) (classifier : Option PersistenceClassifier) (now : DateTime)
  | add_fact_precomputed (req : AddFactRequest) (embedding : Embedding) (declared : EmbeddingFingerprint)
      (classifier : Option PersistenceClassifier) (now : DateTime)
  | add_facts_batch (entries : List AddFactRequest) (embedder : EmbeddingProvider) (classifier : Option PersistenceClassifier)
      (now : DateTime)
  | add_facts_batch_partial (entries : List AddFactRequest) (embedder : EmbeddingProvider)
      (classifier : Option PersistenceClassifier) (now : DateTime)
  | ensure_scope_path (path : String)
  | promote (req : PromoteRequest) (now : DateTime)

namespace IngestCall

/-- Run a call; its result does not matter here. -/
def run (ctx : MemoryCtx) : IngestCall → Op Unit
  | add_fact req embedder classifier now => do let _ ← MemoryEngine.add_fact ctx req embedder classifier now
  | add_fact_precomputed req embedding declared classifier now => do
    let _ ← MemoryEngine.add_fact_precomputed ctx req embedding declared classifier now
  | add_facts_batch entries embedder classifier now => do let _ ← MemoryEngine.add_facts_batch ctx entries embedder classifier now
  | add_facts_batch_partial entries embedder classifier now => do
    let _ ← MemoryEngine.add_facts_batch_partial ctx entries embedder classifier now
  | ensure_scope_path path => do let _ ← MemoryEngine.ensure_scope_path ctx path
  | promote req now => do let _ ← promote_with_lineage ctx req now

/-- The scope paths of a batch, those of its valid entries. -/
def batch (self : SqliteBackend) : IngestCall → List String
  | add_facts_batch entries _ _ _ => scopePaths entries
  | add_facts_batch_partial entries _ _ _ => scopePaths (entries.filter (valid self))
  | _ => []

end IngestCall

/-- What any call does to the tree: the single ones complete it, a batch adds the
    scopes it names. -/
theorem commits_ingest {ctx : MemoryCtx} {call : IngestCall} {s t : Engine} {u : Unit} (mirrored : s.ScopesMirrored)
    (committed : Commits (call.run ctx) s u t) :
    BatchCached s t (call.batch ctx.backend) ∨ (call.batch ctx.backend = [] ∧ t.ScopesMirrored) := by
  have unchanged : BatchCached s s [] :=
    ⟨mirrored.rooted,fun n member => member,by simp,fun n member fresh => absurd member fresh,
      mirrored.holds.congr fun n => by simp⟩
  cases call with
  | add_fact req embedder classifier now =>
    obtain ⟨id,m,called,last⟩ := commits_bind.mp committed
    obtain ⟨_,rfl⟩ := commits_pure.mp last
    exact .inr ⟨rfl,mirrored_add_fact mirrored called⟩
  | add_fact_precomputed req embedding declared classifier now =>
    obtain ⟨id,m,called,last⟩ := commits_bind.mp committed
    obtain ⟨_,rfl⟩ := commits_pure.mp last
    exact .inr ⟨rfl,mirrored_add_fact_precomputed mirrored called⟩
  | ensure_scope_path path =>
    obtain ⟨id,m,called,last⟩ := commits_bind.mp committed
    obtain ⟨_,rfl⟩ := commits_pure.mp last
    exact .inr ⟨rfl,mirrored_ensure_scope_path mirrored called⟩
  | promote req now =>
    obtain ⟨r,m,called,last⟩ := commits_bind.mp committed
    obtain ⟨_,rfl⟩ := commits_pure.mp last
    exact .inr ⟨rfl,mirrored_promote mirrored called⟩
  | add_facts_batch entries embedder classifier now =>
    obtain ⟨ids,m,called,last⟩ := commits_bind.mp committed
    obtain ⟨_,rfl⟩ := commits_pure.mp last
    have body := commits_gated called
    split at body
    · rename_i empty
      obtain ⟨_,rfl⟩ := commits_pure.mp body
      rw [IngestCall.batch,empty]
      exact .inl unchanged
    · obtain ⟨_,m',validated,inserted⟩ := commits_bind.mp body
      obtain ⟨_,rfl⟩ := commits_lift.mp validated
      exact .inl (batchCached_insert mirrored inserted)
  | add_facts_batch_partial entries embedder classifier now =>
    obtain ⟨ids,m,called,last⟩ := commits_bind.mp committed
    obtain ⟨_,rfl⟩ := commits_pure.mp last
    have body := commits_gated called
    split at body
    · rename_i empty
      obtain ⟨_,rfl⟩ := commits_pure.mp body
      rw [IngestCall.batch,empty]
      exact .inl unchanged
    · obtain ⟨ids',m',inserted,last⟩ := commits_bind.mp body
      obtain ⟨_,rfl⟩ := commits_pure.mp last
      unfold insertKept at inserted
      split at inserted
      · rename_i none
        obtain ⟨_,rfl⟩ := commits_pure.mp inserted
        rw [IngestCall.batch,none]
        exact .inl unchanged
      · exact .inl (batchCached_insert mirrored inserted)

/-- A call with the engine before and after it. -/
structure IngestStep where
  before : Engine
  call : IngestCall
  after : Engine

/-- The batch of a step names, or finds, every scope above the ones it names. -/
def IngestStep.Complete (self : SqliteBackend) (step : IngestStep) : Prop :=
  AncestorsKnown (step.call.batch self) step.before.storage.toTables

namespace Sample

def blank : Engine := ⟨Db.fresh,MemoryGraph.new,ScopeTree.from_nodes Db.fresh.scopes.rows⟩

def embedder : EmbeddingProvider where
  embed := fun _ => .ok [0x3F000000]
  embed_batch := fun texts => .ok (texts.map fun _ => [0x3F000000])
  fingerprint := ⟨"m","p",1,none,"f32"⟩

def request (content scope : String) : AddFactRequest := ⟨content,.Semantic,none,some scope,none⟩

end Sample

end MemoryEngine
