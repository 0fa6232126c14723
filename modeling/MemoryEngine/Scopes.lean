import MemoryEngine.Database
import MemoryEngine.GraphSearch

/-! The scope hierarchy: the write path on the `scopes` table and the read path
on its in-memory cache. -/

namespace MemoryEngine
open Time KeyedTable Transaction

def MAX_SEGMENT_LEN : Nat := 256

/-- Characters with the Unicode `White_Space` property. -/
def isWhitespace (c : Char) : Bool :=
  let n := c.toNat
  (9 ≤ n && n ≤ 13) || n = 32 || n = 0x85 || n = 0xA0 || n = 0x1680 || (0x2000 ≤ n && n ≤ 0x200A) ||
    n = 0x2028 || n = 0x2029 || n = 0x202F || n = 0x205F || n = 0x3000

def trim (s : String) : String :=
  String.ofList ((s.toList.dropWhile isWhitespace).reverse.dropWhile isWhitespace).reverse

/-- The pieces of a path between its slashes. -/
def segments (path : String) : List String := (path.toList.splitOn '/').map String.ofList

/-- The path whose segments these are. -/
def joined (segs : List String) : String := String.ofList (List.intercalate ['/'] (segs.map String.toList))

def validate_segment (segment : String) : Except String Unit :=
  if segment = "" then .error "scope label must not be empty" else
  if '/' ∈ segment.toList then .error "scope label must not contain '/'" else
  if segment.utf8ByteSize > MAX_SEGMENT_LEN then .error "scope label must be at most 256 bytes" else .ok ()

/-- A label the write path accepts. -/
def ValidLabel (label : String) : Prop := validate_segment label = .ok () ∧ trim label = label

instance : DecidablePred (fun label => validate_segment label = .ok ()) := fun label =>
  match shape : validate_segment label with
  | .ok () => .isTrue shape
  | .error _ => .isFalse (by simp [shape])

instance (label : String) : Decidable (ValidLabel label) := inferInstanceAs (Decidable (_ ∧ _))

namespace ScopeStore

def get (id : Int) : Sql ScopeNode := do
  match ← query (·.scopes.find id) with
  | some node => return node
  | none => throw (.NotFound s!"scope id={id}")

/-- The row with this parent and label. -/
def child (t : Tables) (parent : Int) (label : String) : Option ScopeNode :=
  t.scopes.rows.find? (fun n => n.parent_id == some parent && n.label == label)

def validate_label (label : String) : Except MemoryError Unit :=
  match validate_segment (trim label) with
  | .error reason => .error (.Conflict (.ScopeLabel reason))
  | .ok () => if trim label ≠ label then
      .error (.Conflict (.ScopeLabel "scope label must not have leading/trailing whitespace")) else .ok ()

def newRow (parent : Int) (label : String) (depth id : Int) : ScopeNode := ⟨id,some parent,label,depth⟩

theorem newRow_key (parent : Int) (label : String) (depth id : Int) : Row.key (newRow parent label depth id) = id := rfl

/-- `INSERT OR IGNORE`: an existing pair of parent and label stays as it is. -/
def insertOrIgnore (t : Tables) (parent : Int) (label : String) (depth : Int) : Tables :=
  match child t parent label with
  | some _ => t
  | none => { t with scopes := t.scopes.insert (newRow parent label depth) (newRow_key parent label depth) }

def ensureFrom : Int → Int → List String → Sql Int
  | parent_id,_,[] => return parent_id
  | parent_id,depth,segment :: rest => do
    validate_label segment
    execute fun t => insertOrIgnore t parent_id segment depth
    match ← query (child · parent_id segment) with
    | some node => ensureFrom node.id (depth + 1) rest
    | none => throw (.Storage "Query returned no rows")

/-- Resolve a path below the root, creating the missing nodes. -/
def ensure_path (path : String) : Sql Int := do
  require (path ≠ "") (.Conflict (.ScopeLabel "scope path must not be empty"))
  ensureFrom 1 1 (segments path)

def list_all : Sql (List ScopeNode) := query (·.scopes.rows)

end ScopeStore

/-- Which scopes a query reads, from a path. -/
inductive ScopeQuery where
  | Exact (path : String)
  | Subtree (path : String)
  | Ancestors (path : String)
  | Inherited (path : String)

/-- The cache of the hierarchy: the known nodes, and the child lists as pairs of a parent
    and a child in insertion order. -/
structure ScopeTree where
  nodes : List ScopeNode
  links : List (Int × Int)

namespace ScopeTree

def ROOT_ID : Int := 1

/-- The child ids of a node, in insertion order. -/
def children (tree : ScopeTree) (id : Int) : List Int := GraphSearch.ends tree.links id

def node? (tree : ScopeTree) (id : Int) : Option ScopeNode := tree.nodes.find? (fun n => n.id == id)

/-- Register a node under its parent. -/
def link (tree : ScopeTree) (node : ScopeNode) : List (Int × Int) :=
  match node.parent_id with
  | some pid => tree.links ++ [(pid,node.id)]
  | none => tree.links

/-- Add a node unless its id is known. -/
def insert (tree : ScopeTree) (node : ScopeNode) : ScopeTree :=
  match tree.node? node.id with
  | some _ => tree
  | none => ⟨tree.nodes ++ [node],tree.link node⟩

/-- Both maps from a node sequence; a later node replaces one with its id. -/
def build_index (nodes : List ScopeNode) : ScopeTree :=
  nodes.foldl (fun tree node => ⟨tree.nodes.filter (fun n => n.id ≠ node.id) ++ [node],tree.link node⟩) ⟨[],[]⟩

def from_nodes (nodes : List ScopeNode) : ScopeTree := build_index nodes

/-- The cached child of a node under a label. -/
def child (tree : ScopeTree) (parent : Int) (label : String) : Option Int :=
  (tree.children parent).find? (fun id => (tree.node? id).any (fun n => n.label == label))

def resolveFrom (tree : ScopeTree) : Int → List String → Option Int
  | current,[] => some current
  | current,segment :: rest =>
    match validate_segment (trim segment) with
    | .error _ => none
    | .ok () =>
      match tree.child current (trim segment) with
      | some id => tree.resolveFrom id rest
      | none => none

def resolve_path (tree : ScopeTree) (path : String) : Option Int :=
  if path = "/" then some ROOT_ID else tree.resolveFrom ROOT_ID (segments path)

/-- All ids below a node, itself included, breadth first and skipping what was visited. -/
def subtree (tree : ScopeTree) (scope_id : Int) : List Int :=
  (GraphSearch.visit tree.children (tree.links.length + 2) [scope_id] []).getD []

def parent? (tree : ScopeTree) (id : Int) : Option Int := (tree.node? id).bind ScopeNode.parent_id

/-- From a node to the root, stopping at an id that repeats. -/
def ancestors (tree : ScopeTree) (scope_id : Int) : List Int :=
  (GraphSearch.climb tree.parent? (tree.nodes.length + 2) (some scope_id) []).getD []

def inherited (tree : ScopeTree) (scope_id : Int) : List Int :=
  tree.ancestors scope_id ++ (tree.subtree scope_id).filter (· ≠ scope_id)

def resolve_query (tree : ScopeTree) : ScopeQuery → Option (List Int)
  | .Exact path => (tree.resolve_path path).map fun id => [id]
  | .Subtree path => (tree.resolve_path path).map tree.subtree
  | .Ancestors path => (tree.resolve_path path).map tree.ancestors
  | .Inherited path => (tree.resolve_path path).map tree.inherited

/-- The labels from a node up to the root, or to an id that repeats; an id without a node
    ends the walk with nothing. -/
def labels_up (tree : ScopeTree) : Nat → Option Int → List Int → List String → Option (Option (List String))
  | 0,_,_,_ => none
  | _ + 1,none,_,segments => some (some segments)
  | fuel + 1,some id,seen,segments =>
    if id = ROOT_ID then some (some segments) else
    if id ∈ seen then some (some segments) else
    match tree.node? id with
    | none => some none
    | some node => tree.labels_up fuel node.parent_id (seen ++ [id]) (segments ++ [node.label])

theorem node_known {tree : ScopeTree} {id : Int} {node : ScopeNode} (found : tree.node? id = some node) :
    id ∈ tree.nodes.map ScopeNode.id := by
  have same : node.id = id := by simpa using List.find?_some found
  exact List.mem_map.mpr ⟨node,List.mem_of_find?_eq_some found,same⟩

/-- The search below a node ends for every pair of maps, and more steps change nothing. -/
theorem visit_subtree (tree : ScopeTree) (scope_id : Int) (extra : Nat) :
    GraphSearch.visit tree.children (tree.links.length + 2 + extra) [scope_id] [] = some (tree.subtree scope_id) := by
  obtain ⟨all,ended,_⟩ := GraphSearch.visit_exact tree.links scope_id (Nat.lt_succ_self (tree.links.length + 1))
  have here : tree.subtree scope_id = all := by
    have listed : GraphSearch.visit tree.children (tree.links.length + 2) [scope_id] [] = some all := ended
    rw [subtree,listed]
    rfl
  rw [here]
  exact GraphSearch.visit_more ended extra

/-- The climb from a node ends for every pair of maps, and more steps change nothing. -/
theorem climb_ancestors (tree : ScopeTree) (scope_id : Int) (extra : Nat) :
    GraphSearch.climb tree.parent? (tree.nodes.length + 2 + extra) (some scope_id) [] = some (tree.ancestors scope_id) := by
  have parents : ∀ x y, tree.parent? x = some y → x ∈ tree.nodes.map ScopeNode.id := by
    intro x y above
    obtain ⟨node,found,_⟩ := Option.bind_eq_some_iff.mp above
    exact node_known found
  obtain ⟨all,ended⟩ := GraphSearch.climb_ends parents scope_id
  rw [List.length_map] at ended
  have here : tree.ancestors scope_id = all := by
    rw [ancestors,ended]
    rfl
  rw [here]
  exact GraphSearch.climb_more ended extra

theorem mem_subtree_iff (tree : ScopeTree) (scope_id id : Int) :
    id ∈ tree.subtree scope_id ↔ GraphSearch.Reaches tree.children scope_id id := by
  obtain ⟨all,ended,_,exact_⟩ := GraphSearch.visit_exact tree.links scope_id (Nat.lt_succ_self (tree.links.length + 1))
  have listed := tree.visit_subtree scope_id 0
  have same : some all = some (tree.subtree scope_id) := ended.symm.trans listed
  rw [← Option.some.inj same]
  exact exact_ id

theorem mem_subtree (tree : ScopeTree) (id : Int) : id ∈ tree.subtree id := (tree.mem_subtree_iff id id).mpr .refl

theorem mem_ancestors (tree : ScopeTree) (id : Int) : id ∈ tree.ancestors id := by
  have ended := tree.climb_ancestors id 0
  exact GraphSearch.climb_keeps ended (.inr rfl)

/-- A scope that resolves stands for at least its own node. -/
theorem resolve_query_ne_nil {tree : ScopeTree} {query : ScopeQuery} {ids : List Int} (resolved : tree.resolve_query query = some ids) :
    ids ≠ [] := by
  cases query with
  | Exact path =>
    obtain ⟨id,_,rfl⟩ := Option.map_eq_some_iff.mp resolved
    exact List.cons_ne_nil _ _
  | Subtree path =>
    obtain ⟨id,_,rfl⟩ := Option.map_eq_some_iff.mp resolved
    exact List.ne_nil_of_mem (tree.mem_subtree id)
  | Ancestors path =>
    obtain ⟨id,_,rfl⟩ := Option.map_eq_some_iff.mp resolved
    exact List.ne_nil_of_mem (tree.mem_ancestors id)
  | Inherited path =>
    obtain ⟨id,_,rfl⟩ := Option.map_eq_some_iff.mp resolved
    exact List.ne_nil_of_mem (List.mem_append_left _ (tree.mem_ancestors id))

def to_snapshot (tree : ScopeTree) : List ScopeNode := tree.nodes

def from_snapshot (nodes : List ScopeNode) : ScopeTree := build_index nodes

end ScopeTree

example : segments "user:michael/project:demo" = ["user:michael","project:demo"] := by decide
end MemoryEngine
