import MemoryEngine.Scopes
import Mathlib.Data.List.Induction

/-! The scope table as a tree and its cache. A path leads from the root along
labels; `ensure_path` extends the table until the path exists, and the cache
follows a path exactly as far as it holds its nodes. -/

namespace MemoryEngine
open Time KeyedTable Transaction

/-- Follow labels from a node. -/
def Tables.descend (t : Tables) : Int → List String → Option Int
  | current,[] => some current
  | current,segment :: rest => (ScopeStore.child t current segment).bind (fun n => t.descend n.id rest)

/-- The table is a tree with the root on top; parents are older than children. -/
structure Tables.Rooted (t : Tables) : Prop where
  root : t.scopes.Has 1
  top : ∀ n ∈ t.scopes.rows, n.id = 1 → n.parent_id = none
  climbs : ∀ n ∈ t.scopes.rows, ∀ p ∈ n.parent_id, p < n.id

theorem Db.fresh_rooted : Db.fresh.Rooted := ⟨by decide,by decide,by decide⟩

theorem ScopeStore.child_eq_some (db : Db) {parent : Int} {label : String} {n : ScopeNode} :
    ScopeStore.child db.toTables parent label = some n ↔ n ∈ db.scopes.rows ∧ n.parent_id = some parent ∧ n.label = label := by
  have matching : ∀ m : ScopeNode, (m.parent_id == some parent && m.label == label) = true ↔
      m.parent_id = some parent ∧ m.label = label := by
    intro m
    rw [Bool.and_eq_true,beq_iff_eq,beq_iff_eq]
  constructor
  · intro found
    unfold ScopeStore.child at found
    have passed := List.find?_some found
    exact ⟨List.mem_of_find?_eq_some found,(matching n).mp passed⟩
  · rintro ⟨member,parented,labelled⟩
    cases found : ScopeStore.child db.toTables parent label with
    | none => exact absurd ((matching n).mpr ⟨parented,labelled⟩) (List.find?_eq_none.mp found n member)
    | some other =>
      unfold ScopeStore.child at found
      have held := List.mem_of_find?_eq_some found
      have passed := List.find?_some found
      obtain ⟨parented',labelled'⟩ := (matching other).mp passed
      have same := db.unique.labels other held n member (by simp [parented']) (by rw [parented,parented']) (by rw [labelled,labelled'])
      rw [db.scopes.key_unique held member same]

namespace Tables

theorem descend_append (t : Tables) (current : Int) (segs segs' : List String) :
    t.descend current (segs ++ segs') = (t.descend current segs).bind (fun id => t.descend id segs') := by
  induction segs generalizing current with
  | nil => rfl
  | cons segment rest ih =>
    rw [List.cons_append,descend,descend]
    cases ScopeStore.child t current segment with
    | none => rfl
    | some n => exact ih n.id

/-- The last step of a path. -/
theorem descend_snoc (db : Db) {current id : Int} {segs : List String} {label : String} :
    db.descend current (segs ++ [label]) = some id ↔
      ∃ parent, db.descend current segs = some parent ∧ ∃ n ∈ db.scopes.rows, n.parent_id = some parent ∧ n.label = label ∧ n.id = id := by
  have one : ∀ parent, db.descend parent [label] = some id ↔
      ∃ n ∈ db.scopes.rows, n.parent_id = some parent ∧ n.label = label ∧ n.id = id := by
    intro parent
    rw [descend]
    cases found : ScopeStore.child db.toTables parent label with
    | none =>
      refine ⟨fun wrong => absurd wrong (by simp),?_⟩
      rintro ⟨n,member,parented,labelled,_⟩
      rw [(ScopeStore.child_eq_some db).mpr ⟨member,parented,labelled⟩] at found
      cases found
    | some n =>
      obtain ⟨member,parented,labelled⟩ := (ScopeStore.child_eq_some db).mp found
      constructor
      · intro same
        exact ⟨n,member,parented,labelled,by simpa [descend] using same⟩
      · rintro ⟨n',member',parented',labelled',rfl⟩
        have same := (ScopeStore.child_eq_some db).mpr ⟨member',parented',labelled'⟩
        rw [found] at same
        cases same
        rfl
  rw [descend_append]
  cases db.descend current segs with
  | none => simp
  | some parent => simpa using one parent

/-- A path from the root ends in a row. -/
theorem descend_has {db : Db} (rooted : db.Rooted) {segs : List String} {id : Int} (path : db.descend 1 segs = some id) :
    db.scopes.Has id := by
  cases segs using List.reverseRecOn with
  | nil =>
    cases path
    exact rooted.root
  | append_singleton segs label ih =>
    obtain ⟨_,_,n,member,_,_,rfl⟩ := (descend_snoc db).mp path
    exact Table.has_of_mem member

/-- Two paths to one row are one path. -/
theorem descend_inj {db : Db} (rooted : db.Rooted) {segs segs' : List String} {id : Int} (first : db.descend 1 segs = some id)
    (second : db.descend 1 segs' = some id) : segs = segs' := by
  have not_root : ∀ {segs : List String} {label : String}, db.descend 1 (segs ++ [label]) ≠ some 1 := by
    intro segs label path
    obtain ⟨parent,_,n,member,parented,_,root⟩ := (descend_snoc db).mp path
    rw [rooted.top n member root] at parented
    cases parented
  induction segs using List.reverseRecOn generalizing segs' id with
  | nil =>
    cases first
    cases segs' using List.reverseRecOn with
    | nil => rfl
    | append_singleton rest label _ => exact absurd second not_root
  | append_singleton rest label ih =>
    cases segs' using List.reverseRecOn with
    | nil =>
      cases second
      exact absurd first not_root
    | append_singleton rest' label' _ =>
      obtain ⟨parent,path,n,member,parented,labelled,here⟩ := (descend_snoc db).mp first
      obtain ⟨parent',path',n',member',parented',labelled',here'⟩ := (descend_snoc db).mp second
      have same := db.scopes.key_unique member member' (here.trans here'.symm)
      subst same
      rw [parented] at parented'
      cases parented'
      rw [ih path path',← labelled,← labelled']

/-- A path is shorter than the number of rows up to its end. -/
theorem descend_length {db : Db} (rooted : db.Rooted) {segs : List String} {id : Int} (path : db.descend 1 segs = some id) :
    segs.length < db.scopes.rows.countP (fun n => decide (n.id ≤ id)) := by
  induction segs using List.reverseRecOn generalizing id with
  | nil =>
    cases path
    obtain ⟨root,member,same⟩ := rooted.root
    have same : root.id = 1 := same
    exact List.countP_pos_iff.mpr ⟨root,member,by simp [same]⟩
  | append_singleton rest label ih =>
    obtain ⟨parent,path',n,member,parented,_,rfl⟩ := (descend_snoc db).mp path
    have before := ih path'
    have less := rooted.climbs n member parent (by rw [parented]; rfl)
    obtain ⟨front,back,split⟩ := List.append_of_mem member
    have grows : ∀ rows : List ScopeNode, rows.countP (fun m => decide (m.id ≤ parent)) ≤ rows.countP (fun m => decide (m.id ≤ n.id)) := by
      intro rows
      refine List.countP_mono_left fun m _ within => ?_
      simp only [decide_eq_true_eq] at within ⊢
      omega
    have front' := grows front
    have back' := grows back
    rw [split,List.countP_append,List.countP_cons] at before
    rw [split,List.countP_append,List.countP_cons,List.length_append,List.length_singleton]
    have outside : ¬ n.id ≤ parent := by omega
    simp only [outside,decide_false,Bool.false_eq_true,if_false,le_refl,decide_true,if_true] at before ⊢
    omega

/-- Rows that were there before are found along the same path as before. -/
theorem descend_of_has {s t : Db} (kept : ∀ n ∈ s.scopes.rows, n ∈ t.scopes.rows) {segs : List String} {id : Int} (path : t.descend 1 segs = some id) (has : s.scopes.Has id) : s.descend 1 segs = some id := by
  induction segs using List.reverseRecOn generalizing id with
  | nil =>
    cases path
    rfl
  | append_singleton rest label ih =>
    obtain ⟨parent,path',n,member,parented,labelled,rfl⟩ := (descend_snoc t).mp path
    obtain ⟨old,held,same⟩ := has
    have one := t.scopes.key_unique (kept old held) member same
    subst one
    have above := s.foreign.scope_parent old held parent (by rw [parented]; rfl)
    exact (descend_snoc s).mpr ⟨parent,ih path' above,old,held,parented,labelled,rfl⟩

/-- A path stays when rows are added. -/
theorem descend_mono {s t : Db} (kept : ∀ n ∈ s.scopes.rows, n ∈ t.scopes.rows) {current id : Int} {segs : List String}
    (path : s.descend current segs = some id) : t.descend current segs = some id := by
  induction segs using List.reverseRecOn generalizing id with
  | nil => exact path
  | append_singleton rest label ih =>
    obtain ⟨parent,path',n,member,parented,labelled,rfl⟩ := (descend_snoc s).mp path
    exact (descend_snoc t).mpr ⟨parent,ih path',n,kept n member,parented,labelled,rfl⟩

theorem descend_cons {db : Db} {current id : Int} {label : String} {rest : List String} {n : ScopeNode}
    (member : n ∈ db.scopes.rows) (parented : n.parent_id = some current) (labelled : n.label = label)
    (path : db.descend n.id rest = some id) : db.descend current (label :: rest) = some id := by
  rw [descend,(ScopeStore.child_eq_some db).mpr ⟨member,parented,labelled⟩]
  exact path

end Tables

/-- Both read the scope table alone. -/
theorem Tables.descend_congr {t t' : Tables} (same : t'.scopes = t.scopes) (current : Int) (segs : List String) :
    t'.descend current segs = t.descend current segs := by
  induction segs generalizing current with
  | nil => rfl
  | cons segment rest ih =>
    rw [descend,descend,ScopeStore.child,ScopeStore.child,same]
    exact congrArg _ (funext fun n => ih n.id)

theorem Tables.Rooted.congr {t t' : Tables} (rooted : t.Rooted) (same : t'.scopes = t.scopes) : t'.Rooted := by
  obtain ⟨root,top,climbs⟩ := rooted
  rw [← same] at root top climbs
  exact ⟨root,top,climbs⟩

open Tables

/-- The table grew by rows along one path, which now exists. -/
structure Ensured (s t : Db) (parent : Int) (segs : List String) (id : Int) : Prop where
  rooted : t.Rooted
  kept : ∀ n ∈ s.scopes.rows, n ∈ t.scopes.rows
  labels : ∀ segment ∈ segs, ValidLabel segment
  path : t.descend parent segs = some id
  along : ∀ n ∈ t.scopes.rows, n ∉ s.scopes.rows → ∃ k, 0 < k ∧ k ≤ segs.length ∧ t.descend parent (segs.take k) = some n.id

namespace ScopeStore

theorem commits_get {id : Int} {node : ScopeNode} {db db' : Db} :
    Commits (get id) db node db' ↔ node ∈ db.scopes.rows ∧ node.id = id ∧ db' = db := by
  simp only [get,commits_bind,commits_query]
  constructor
  · rintro ⟨_,m,⟨rfl,rfl⟩,rest⟩
    cases found : m.scopes.find id with
    | none =>
      rw [found] at rest
      exact absurd rest commits_throw
    | some row =>
      rw [found] at rest
      obtain ⟨rfl,rfl⟩ := commits_pure.mp rest
      obtain ⟨member,same⟩ := Table.find_eq_some.mp found
      exact ⟨member,same,rfl⟩
  · rintro ⟨member,same,rfl⟩
    refine ⟨_,_,⟨rfl,rfl⟩,?_⟩
    rw [Table.find_eq_some.mpr ⟨member,same⟩]
    exact commits_pure.mpr ⟨rfl,rfl⟩

theorem validate_label_ok {label : String} : validate_label label = .ok () ↔ ValidLabel label := by
  unfold validate_label ValidLabel
  constructor
  · intro accepted
    split at accepted
    · cases accepted
    · rename_i valid
      by_cases trimmed : trim label = label
      · exact ⟨by rwa [trimmed] at valid,trimmed⟩
      · rw [if_pos trimmed] at accepted
        cases accepted
  · rintro ⟨valid,trimmed⟩
    rw [trimmed,valid]
    simp

/-- The statement adds at most the child itself. -/
theorem commits_insertOrIgnore {parent depth : Int} {label : String} {s m : Db} {u : Unit} (rooted : s.Rooted) (has : s.scopes.Has parent)
    (committed : Commits (execute fun t => insertOrIgnore t parent label depth) s u m) :
    m.Rooted ∧ (∀ n ∈ s.scopes.rows, n ∈ m.scopes.rows) ∧
      ∀ n ∈ m.scopes.rows, n ∉ s.scopes.rows → n.parent_id = some parent ∧ n.label = label := by
  have written := commits_execute.mp committed
  unfold insertOrIgnore at written
  cases found : child s.toTables parent label with
  | some n =>
    rw [found] at written
    obtain rfl := Db.ext written
    exact ⟨rooted,fun n member => member,fun n member fresh => absurd member fresh⟩
  | none =>
    rw [found] at written
    have scopes : m.scopes = s.scopes.insert (newRow parent label depth) (newRow_key parent label depth) := congrArg Tables.scopes written
    have rows : ∀ n, n ∈ m.scopes.rows ↔ n ∈ s.scopes.rows ∨ n = newRow parent label depth s.scopes.nextId := by
      intro n
      rw [scopes]
      exact Table.mem_insert
    have below : parent < s.scopes.nextId := by
      obtain ⟨row,member,rfl⟩ := has
      exact s.scopes.nextId_fresh member
    have above_root : (1 : Int) < s.scopes.nextId := by
      obtain ⟨row,member,same⟩ := rooted.root
      have fresh := s.scopes.nextId_fresh member
      omega
    refine ⟨⟨?_,?_,?_⟩,fun n member => (rows n).mpr (.inl member),?_⟩
    · rw [scopes]
      exact Table.has_insert.mpr (.inl rooted.root)
    · intro n member root
      rcases (rows n).mp member with old | rfl
      · exact rooted.top n old root
      · have fresh : s.scopes.nextId = 1 := root
        omega
    · intro n member p parented
      rcases (rows n).mp member with old | rfl
      · exact rooted.climbs n old p parented
      · have same : parent = p := Option.some.inj parented
        subst same
        exact below
    · intro n member fresh
      rcases (rows n).mp member with old | rfl
      · exact absurd old fresh
      · exact ⟨rfl,rfl⟩

theorem ensured_from {segs : List String} {parent depth id : Int} {s t : Db} (rooted : s.Rooted) (has : s.scopes.Has parent)
    (committed : Commits (ensureFrom parent depth segs) s id t) : Ensured s t parent segs id := by
  induction segs generalizing parent depth s with
  | nil =>
    obtain ⟨rfl,rfl⟩ := commits_pure.mp committed
    exact ⟨rooted,fun n member => member,by simp,rfl,fun n member fresh => absurd member fresh⟩
  | cons segment rest ih =>
    obtain ⟨_,_,checked,rest₁⟩ := commits_bind.mp committed
    obtain ⟨accepted,rfl⟩ := commits_lift.mp checked
    obtain ⟨_,_,inserted,rest₂⟩ := commits_bind.mp rest₁
    obtain ⟨found,m,looked,rest₃⟩ := commits_bind.mp rest₂
    obtain ⟨rfl,rfl⟩ := commits_query.mp looked
    obtain ⟨rooted',kept,added⟩ := commits_insertOrIgnore rooted has inserted
    cases here : child m.toTables parent segment with
    | none =>
      rw [here] at rest₃
      exact absurd rest₃ commits_throw
    | some node =>
      rw [here] at rest₃
      obtain ⟨member,parented,labelled⟩ := (child_eq_some m).mp here
      have tail := ih rooted' (Table.has_of_mem member) rest₃
      have under : ∀ {segs : List String} {last : Int}, t.descend node.id segs = some last →
          t.descend parent (segment :: segs) = some last :=
        descend_cons (tail.kept node member) parented labelled
      refine ⟨tail.rooted,fun n old => tail.kept n (kept n old),?_,under tail.path,?_⟩
      · intro label listed
        rcases List.mem_cons.mp listed with rfl | later
        · exact validate_label_ok.mp accepted
        · exact tail.labels label later
      · intro n final fresh
        by_cases early : n ∈ m.scopes.rows
        · obtain ⟨parented',labelled'⟩ := added n early fresh
          have one : child m.toTables parent segment = some n := (child_eq_some m).mpr ⟨early,parented',labelled'⟩
          rw [here] at one
          cases one
          exact ⟨1,Nat.one_pos,by simp,under rfl⟩
        · obtain ⟨k,positive,within,path⟩ := tail.along n final early
          exact ⟨k + 1,Nat.succ_pos k,Nat.succ_le_succ within,under path⟩

theorem ensured {path : String} {id : Int} {s t : Db} (rooted : s.Rooted) (committed : Commits (ensure_path path) s id t) :
    Ensured s t 1 (segments path) id := by
  obtain ⟨_,_,checked,rest⟩ := commits_bind.mp committed
  obtain ⟨_,rfl⟩ := commits_require.mp checked
  exact ensured_from rooted rooted.root rest

/-- Where a path exists, ensuring it changes nothing. -/
theorem ensureFrom_of_path {segs : List String} {parent depth id : Int} {db : Db} (labels : ∀ segment ∈ segs, ValidLabel segment)
    (path : db.descend parent segs = some id) : Commits (ensureFrom parent depth segs) db id db := by
  induction segs generalizing parent depth with
  | nil =>
    cases path
    exact commits_pure.mpr ⟨rfl,rfl⟩
  | cons segment rest ih =>
    obtain ⟨valid,labels⟩ := List.forall_mem_cons.mp labels
    rw [descend] at path
    cases here : child db.toTables parent segment with
    | none =>
      rw [here] at path
      cases path
    | some node =>
      rw [here] at path
      have ignored : insertOrIgnore db.toTables parent segment depth = db.toTables := by rw [insertOrIgnore,here]
      refine commits_bind.mpr ⟨(),db,commits_lift.mpr ⟨validate_label_ok.mpr valid,rfl⟩,?_⟩
      refine commits_bind.mpr ⟨(),db,commits_execute.mpr ignored.symm,?_⟩
      refine commits_bind.mpr ⟨some node,db,commits_query.mpr ⟨here.symm,rfl⟩,?_⟩
      exact ih labels path

/-- So a path of valid labels is ensured without an insertion where it exists. -/
theorem ensure_path_of_path {path : String} {id : Int} {db : Db} (labels : ∀ segment ∈ segments path, ValidLabel segment)
    (way : db.descend 1 (segments path) = some id) : Commits (ensure_path path) db id db := by
  refine commits_bind.mpr ⟨(),db,commits_require.mpr ⟨?_,rfl⟩,ensureFrom_of_path labels way⟩
  rintro rfl
  have invalid : ¬ ValidLabel "" := by decide
  exact invalid (labels "" (by decide))

end ScopeStore

namespace ScopeTree

/-- The cache holds exactly some nodes, each of them under its parent. -/
structure Holds (tree : ScopeTree) (cached : ScopeNode → Prop) : Prop where
  nodes : ∀ n, n ∈ tree.nodes ↔ cached n
  children : ∀ parent id, id ∈ tree.children parent ↔ ∃ n, cached n ∧ n.parent_id = some parent ∧ n.id = id

variable {tree : ScopeTree} {cached : ScopeNode → Prop}

theorem Holds.congr {cached' : ScopeNode → Prop} (holds : tree.Holds cached) (same : ∀ n, cached n ↔ cached' n) : tree.Holds cached' := by
  have equal : cached = cached' := funext fun n => propext (same n)
  rwa [← equal]

theorem mem_link {nodes : List ScopeNode} {node : ScopeNode} {parent id : Int} :
    id ∈ (ScopeTree.mk nodes (tree.link node)).children parent ↔
      id ∈ tree.children parent ∨ (node.parent_id = some parent ∧ node.id = id) := by
  unfold children link
  rw [GraphSearch.mem_ends,GraphSearch.mem_ends]
  cases given : node.parent_id with
  | none => simp
  | some p => simp [eq_comm]

/-- A node joins the cache unless a node with its id is there. -/
theorem Holds.insert (node : ScopeNode) (holds : tree.Holds cached) (unique : ∀ n, cached n → n.id = node.id → n = node) :
    (tree.insert node).Holds (fun n => cached n ∨ n = node) := by
  unfold ScopeTree.insert
  cases found : tree.node? node.id with
  | some known =>
    have member := List.mem_of_find?_eq_some found
    have same : known.id = node.id := by simpa using List.find?_some found
    have known_node := unique known ((holds.nodes known).mp member) same
    subst known_node
    refine holds.congr fun n => ⟨.inl,?_⟩
    rintro (old | rfl)
    · exact old
    · exact (holds.nodes n).mp member
  | none =>
    constructor
    · intro n
      simp [holds.nodes]
    · intro parent id
      rw [mem_link,holds.children]
      constructor
      · rintro (⟨n,old,parented,same⟩ | ⟨parented,same⟩)
        · exact ⟨n,.inl old,parented,same⟩
        · exact ⟨node,.inr rfl,parented,same⟩
      · rintro ⟨n,old | rfl,parented,same⟩
        · exact .inl ⟨n,old,parented,same⟩
        · exact .inr ⟨parented,same⟩

/-- Nodes read from a table join the cache. -/
theorem Holds.insertAll {db : Db} {nodes : List ScopeNode} (holds : tree.Holds cached) (within : ∀ n, cached n → n ∈ db.scopes.rows)
    (rows : ∀ n ∈ nodes, n ∈ db.scopes.rows) : (nodes.foldl ScopeTree.insert tree).Holds (fun n => cached n ∨ n ∈ nodes) := by
  induction nodes generalizing tree cached with
  | nil => exact holds.congr fun n => by simp
  | cons node rest ih =>
    obtain ⟨here,rows⟩ := List.forall_mem_cons.mp rows
    have first := holds.insert node fun n old same => db.scopes.key_unique (within n old) here same
    have all := ih first (by
      rintro n (old | rfl)
      · exact within n old
      · exact here) rows
    refine all.congr fun n => ?_
    rw [List.mem_cons,or_assoc]

theorem Holds.node {db : Db} (holds : tree.Holds cached) (within : ∀ n, cached n → n ∈ db.scopes.rows) {n : ScopeNode}
    (member : cached n) : tree.node? n.id = some n := by
  cases found : tree.node? n.id with
  | none => exact absurd (List.find?_eq_none.mp found n ((holds.nodes n).mpr member)) (by simp)
  | some other =>
    have same : other.id = n.id := by simpa using List.find?_some found
    have held := (holds.nodes other).mp (List.mem_of_find?_eq_some found)
    rw [db.scopes.key_unique (within other held) (within n member) same]

theorem Holds.child {db : Db} (holds : tree.Holds cached) (within : ∀ n, cached n → n ∈ db.scopes.rows) {parent id : Int}
    {label : String} : tree.child parent label = some id ↔
      ∃ n, cached n ∧ n.parent_id = some parent ∧ n.label = label ∧ n.id = id := by
  have node : ∀ n, cached n → tree.node? n.id = some n := fun n member => holds.node within member
  unfold ScopeTree.child
  constructor
  · intro found
    have listed := List.mem_of_find?_eq_some found
    have passed := List.find?_some found
    obtain ⟨n,member,parented,rfl⟩ := (holds.children parent id).mp listed
    rw [node n member] at passed
    exact ⟨n,member,parented,by simpa using passed,rfl⟩
  · rintro ⟨n,member,parented,labelled,rfl⟩
    have listed := (holds.children parent n.id).mpr ⟨n,member,parented,rfl⟩
    cases found : (tree.children parent).find? (fun id => (tree.node? id).any (fun n => n.label == label)) with
    | none =>
      have failed := List.find?_eq_none.mp found n.id listed
      rw [node n member] at failed
      exact absurd labelled (by simpa using failed)
    | some other =>
      have listed' := List.mem_of_find?_eq_some found
      have passed := List.find?_some found
      obtain ⟨m,held,parented',rfl⟩ := (holds.children parent other).mp listed'
      rw [node m held] at passed
      have labelled' : m.label = label := by simpa using passed
      rw [db.unique.labels m (within m held) n (within n member) (by simp [parented']) (by rw [parented,parented'])
        (by rw [labelled,labelled'])]

/-- A cache of the whole table resolves as the table does. -/
theorem Holds.resolveFrom {db : Db} (holds : tree.Holds (fun n => n ∈ db.scopes.rows)) {segs : List String}
    (labels : ∀ segment ∈ segs, ValidLabel segment) (current : Int) : tree.resolveFrom current segs = db.descend current segs := by
  induction segs generalizing current with
  | nil => rfl
  | cons segment rest ih =>
    obtain ⟨⟨valid,trimmed⟩,labels⟩ := List.forall_mem_cons.mp labels
    rw [ScopeTree.resolveFrom,trimmed,valid,descend]
    have child : ∀ id, tree.child current segment = some id ↔
        ∃ n ∈ db.scopes.rows, n.parent_id = some current ∧ n.label = segment ∧ n.id = id :=
      fun id => holds.child fun n member => member
    cases found : ScopeStore.child db.toTables current segment with
    | none =>
      cases cached : tree.child current segment with
      | none => rfl
      | some id =>
        obtain ⟨n,member,parented,labelled,_⟩ := (child id).mp cached
        rw [(ScopeStore.child_eq_some db).mpr ⟨member,parented,labelled⟩] at found
        cases found
    | some n =>
      obtain ⟨member,parented,labelled⟩ := (ScopeStore.child_eq_some db).mp found
      rw [(child n.id).mpr ⟨n,member,parented,labelled,rfl⟩]
      exact ih labels n.id

/-- Below the start, a resolved path ends in a cached node. -/
theorem Holds.resolved {db : Db} (holds : tree.Holds cached) (within : ∀ n, cached n → n ∈ db.scopes.rows) {segs : List String}
    {current id : Int} (path : tree.resolveFrom current segs = some id) (below : segs ≠ []) : ∃ n, cached n ∧ n.id = id := by
  induction segs generalizing current with
  | nil => exact absurd rfl below
  | cons segment rest ih =>
    rw [ScopeTree.resolveFrom] at path
    split at path
    · cases path
    · split at path
      · rename_i next child
        obtain ⟨n,member,_,_,rfl⟩ := (holds.child within).mp child
        cases rest with
        | nil =>
          cases path
          exact ⟨n,member,rfl⟩
        | cons _ _ => exact ih path (by simp)
      · cases path

theorem resolve_path_of_labels {path : String} (labels : ∀ segment ∈ segments path, ValidLabel segment) :
    tree.resolve_path path = tree.resolveFrom ROOT_ID (segments path) := by
  have not_root : path ≠ "/" := by
    rintro rfl
    have empty : ¬ ValidLabel "" := by decide
    exact empty (labels "" (by decide))
  rw [resolve_path,if_neg not_root]

end ScopeTree

theorem segments_joined {segs : List String} (labels : ∀ segment ∈ segs, ValidLabel segment) (some_ : segs ≠ []) :
    segments (joined segs) = segs := by
  have plain : ∀ l ∈ segs.map String.toList, '/' ∉ l := by
    intro l listed slash
    obtain ⟨segment,member,rfl⟩ := List.mem_map.mp listed
    have valid := (labels segment member).1
    unfold validate_segment at valid
    split at valid
    · cases valid
    · cases valid
  rw [segments,joined,String.toList_ofList,List.splitOn_intercalate '/' plain (by simpa using some_),List.map_map]
  simp

end MemoryEngine
