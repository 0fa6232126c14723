import MemoryEngine.Constraints
import MemoryEngine.IngestMirror
import MemoryEngine.SessionEdges
import Mathlib.Data.List.Nodup

/-! What linking the facts of a session adds. Every ordered pair of distinct facts
that no active edge of the relation joins gets one edge, so a second call finds
every pair joined and adds nothing. -/

namespace MemoryEngine
open Time KeyedTable Transaction GraphEdit SessionEdges

/-- An active co-session edge leads from one fact to the other. -/
def Linked (t : Tables) (a b : FactId) : Prop := ∃ e ∈ t.edges.rows, e.t_expired = none ∧ e.source_fact_id = a ∧ e.target_fact_id = b ∧
  e.relation_type.as_str = CO_SESSION_RELATION

namespace SessionEdges

theorem mem_pairs {fact_ids : List FactId} (distinct : fact_ids.Nodup) {a b : FactId} :
    (a,b) ∈ pairs fact_ids ↔ a ∈ fact_ids ∧ b ∈ fact_ids ∧ a ≠ b := by
  induction fact_ids with
  | nil => simp [pairs]
  | cons first rest ih =>
    obtain ⟨apart,distinct'⟩ := List.nodup_cons.mp distinct
    have crossing : (a,b) ∈ rest.flatMap (fun b_id => [(first,b_id),(b_id,first)]) ↔ (a = first ∧ b ∈ rest) ∨ (b = first ∧ a ∈ rest) := by
      simp only [List.mem_flatMap,List.mem_cons,List.not_mem_nil,or_false,Prod.mk.injEq]
      constructor
      · rintro ⟨c,member,⟨rfl,rfl⟩ | ⟨rfl,rfl⟩⟩
        · exact .inl ⟨rfl,member⟩
        · exact .inr ⟨rfl,member⟩
      · rintro (⟨rfl,member⟩ | ⟨rfl,member⟩)
        · exact ⟨b,member,.inl ⟨rfl,rfl⟩⟩
        · exact ⟨a,member,.inr ⟨rfl,rfl⟩⟩
    rw [pairs,List.mem_append,crossing,ih distinct',List.mem_cons,List.mem_cons]
    constructor
    · rintro ((⟨rfl,member⟩ | ⟨rfl,member⟩) | ⟨left,right,different⟩)
      · exact ⟨.inl rfl,.inr member,fun same => apart (same ▸ member)⟩
      · exact ⟨.inr member,.inl rfl,fun same => apart (same ▸ member)⟩
      · exact ⟨.inr left,.inr right,different⟩
    · rintro ⟨rfl | left,rfl | right,different⟩
      · exact absurd rfl different
      · exact .inl (.inl ⟨rfl,right⟩)
      · exact .inl (.inr ⟨rfl,left⟩)
      · exact .inr ⟨left,right,different⟩

theorem pairs_nodup {fact_ids : List FactId} (distinct : fact_ids.Nodup) : (pairs fact_ids).Nodup := by
  induction fact_ids with
  | nil => exact List.nodup_nil
  | cons first rest ih =>
    obtain ⟨apart,distinct'⟩ := List.nodup_cons.mp distinct
    refine List.Nodup.append ?_ (ih distinct') ?_
    · rw [List.nodup_flatMap]
      refine ⟨fun b_id member => ?_,distinct'.imp_of_mem fun {b c} member member' different => ?_⟩
      · have different : first ≠ b_id := fun same => apart (same ▸ member)
        simp [different]
      · have other : first ≠ b := fun same => apart (same ▸ member)
        have other' : first ≠ c := fun same => apart (same ▸ member')
        rintro ⟨x,y⟩ left right
        simp only [List.mem_cons,List.not_mem_nil,or_false,Prod.mk.injEq] at left right
        rcases left with ⟨source,target⟩ | ⟨source,_⟩
        · rcases right with ⟨_,target'⟩ | ⟨source',_⟩
          · exact different (target.symm.trans target')
          · exact other' (source.symm.trans source')
        · rcases right with ⟨source',_⟩ | ⟨source',_⟩
          · exact other (source'.symm.trans source)
          · exact different (source.symm.trans source')
    · rintro ⟨a,b⟩ crossing inside
      obtain ⟨left,right,_⟩ := (mem_pairs distinct').mp inside
      obtain ⟨c,_,met⟩ := List.mem_flatMap.mp crossing
      simp only [List.mem_cons,List.not_mem_nil,or_false,Prod.mk.injEq] at met
      rcases met with ⟨rfl,_⟩ | ⟨_,rfl⟩
      · exact apart left
      · exact apart right

/-- The rows of an edge list, all of them active, below those that were there. -/
structure Appends (new_edges : List (Int × FactId × FactId)) (s t : Tables) : Prop where
  seq : t.edges.seq = s.edges.seq + new_edges.length
  rows : ∃ rows, t.edges.rows = s.edges.rows ++ rows ∧ (∀ e ∈ rows, e.t_expired = none) ∧ rows.map Edge.snapshot = created new_edges
  rest : t = { s with edges := t.edges }

namespace Appends
variable {new_edges more : List (Int × FactId × FactId)} {s m t : Tables}

theorem refl (t : Tables) : Appends [] t t := ⟨by simp,⟨[],by simp,by simp,rfl⟩,rfl⟩

theorem trans (first : Appends new_edges s m) (second : Appends more m t) : Appends (new_edges ++ more) s t := by
  obtain ⟨rows,added,active,shown⟩ := first.rows
  obtain ⟨rows',added',active',shown'⟩ := second.rows
  refine ⟨?_,⟨rows ++ rows',?_,?_,?_⟩,?_⟩
  · rw [second.seq,first.seq,List.length_append]
    omega
  · rw [added',added,List.append_assoc]
  · exact List.forall_mem_append.mpr ⟨active,active'⟩
  · rw [List.map_append,shown,shown',created,created,created,List.map_append]
  · rw [second.rest,first.rest]

/-- The pairs that are linked afterwards. -/
theorem linked_iff (appends : Appends new_edges s t) {a b : FactId} : Linked t a b ↔ Linked s a b ∨ (a,b) ∈ new_edges.map Prod.snd := by
  obtain ⟨rows,added,active,shown⟩ := appends.rows
  have fresh : (∃ e ∈ rows, e.t_expired = none ∧ e.source_fact_id = a ∧ e.target_fact_id = b ∧ e.relation_type.as_str = CO_SESSION_RELATION) ↔
      (a,b) ∈ new_edges.map Prod.snd := by
    constructor
    · rintro ⟨e,member,_,rfl,rfl,_⟩
      have listed : e.snapshot ∈ created new_edges := shown ▸ List.mem_map_of_mem member
      obtain ⟨edge,held,same⟩ := List.mem_map.mp listed
      have source := congrArg GraphEdgeSnapshot.source same
      have target := congrArg GraphEdgeSnapshot.target same
      exact List.mem_map.mpr ⟨edge,held,Prod.ext source target⟩
    · intro listed
      obtain ⟨edge,held,same⟩ := List.mem_map.mp listed
      have shows : (⟨edge.1,edge.2.1,edge.2.2,.CoSession,CO_SESSION_WEIGHT⟩ : GraphEdgeSnapshot) ∈ rows.map Edge.snapshot := by
        rw [shown]
        exact List.mem_map_of_mem held
      obtain ⟨e,member,same'⟩ := List.mem_map.mp shows
      refine ⟨e,member,active e member,?_,?_,?_⟩
      · exact (congrArg GraphEdgeSnapshot.source same').trans (congrArg Prod.fst same)
      · exact (congrArg GraphEdgeSnapshot.target same').trans (congrArg Prod.snd same)
      · exact congrArg RelationType.as_str (congrArg GraphEdgeSnapshot.relation_type same')
  rw [← fresh,Linked,added]
  simp only [List.mem_append,or_and_right,exists_or,Linked]

/-- Where no edge was added nothing changed. -/
theorem eq_of_nil (appends : Appends [] s t) : t = s := by
  obtain ⟨rows,added,_,shown⟩ := appends.rows
  have none : rows = [] := List.map_eq_nil_iff.mp shown
  rw [none,List.append_nil] at added
  have same : t.edges = s.edges := by
    have seq := appends.seq
    rw [List.length_nil,Nat.cast_zero,add_zero] at seq
    cases held : t.edges
    cases held' : s.edges
    rw [held,held'] at added seq
    cases added
    cases seq
    rfl
  rw [appends.rest,same]

end Appends
/-- The loop adds an edge for each pair not found at its start. -/
theorem appends_loop {existing : List (FactId × FactId)} {now : DateTime} (todo : List (FactId × FactId))
    {new_edges new_edges' : List (Int × FactId × FactId)} {s t : Db}
    (committed : Commits (todo.foldlM (fun new_edges pair =>
      if existing.contains pair then return new_edges else do
        let edge_id ← EdgeStore.insert (cosessionEdge CO_SESSION_RELATION CO_SESSION_WEIGHT CO_SESSION_SCOPE_ID now pair.1 pair.2)
        return new_edges ++ [(edge_id,pair.1,pair.2)]) new_edges) s new_edges' t) :
    ∃ more, new_edges' = new_edges ++ more ∧ Appends more s.toTables t.toTables ∧
      more.map Prod.snd = todo.filter fun pair => !existing.contains pair := by
  induction todo generalizing new_edges s with
  | nil =>
    obtain ⟨rfl,rfl⟩ := commits_pure.mp committed
    exact ⟨[],by simp,.refl _,rfl⟩
  | cons pair rest ih =>
    rw [List.foldlM_cons] at committed
    obtain ⟨next,m,first,tail⟩ := commits_bind.mp committed
    obtain ⟨more,grown,appended,listed⟩ := ih tail
    by_cases found : existing.contains pair = true
    · rw [if_pos found] at first
      obtain ⟨rfl,rfl⟩ := commits_pure.mp first
      exact ⟨more,grown,appended,by rw [listed,List.filter_cons_of_neg (by simpa using found)]⟩
    · rw [if_neg found] at first
      obtain ⟨edge_id,m',inserted,last⟩ := commits_bind.mp first
      obtain ⟨rfl,rfl⟩ := commits_pure.mp last
      obtain ⟨weight,weighed,rfl,written⟩ := EdgeStore.commits_insert.mp inserted
      have here : Appends [(s.edges.nextId,pair.1,pair.2)] s.toTables m.toTables := by
        refine ⟨by rw [written]; rfl,⟨[_],by rw [written]; rfl,by simp [EdgeStore.newRow,cosessionEdge],?_⟩,by rw [written]⟩
        have weighs : CO_SESSION_WEIGHT = .num weight := weighed
        rw [created,List.map_singleton,List.map_singleton,weighs]
        rfl
      refine ⟨(s.edges.nextId,pair.1,pair.2) :: more,by rw [grown,List.append_assoc]; rfl,here.trans appended,?_⟩
      rw [List.map_cons,listed,List.filter_cons_of_pos (by simpa using found)]

/-- The pairs found are those of linked facts. -/
theorem contains_existing {fact_ids : List FactId} {existing : List (FactId × FactId)} {s t : Db}
    (committed : Commits (EdgeStore.list_active_pairs_by_facts fact_ids CO_SESSION_RELATION) s existing t) {a b : FactId}
    (left : a ∈ fact_ids) (right : b ∈ fact_ids) : existing.contains (a,b) = true ↔ Linked s.toTables a b := by
  obtain ⟨rfl,rfl⟩ := commits_query.mp committed
  rw [List.contains_iff_mem,List.mem_map]
  constructor
  · rintro ⟨e,kept,same⟩
    obtain ⟨member,passed⟩ := List.mem_filter.mp kept
    simp only [Bool.and_eq_true,Edge.active,Option.isNone_iff_eq_none,beq_iff_eq] at passed
    exact ⟨e,member,passed.1.1.1,congrArg Prod.fst same,congrArg Prod.snd same,passed.2⟩
  · rintro ⟨e,member,active,rfl,rfl,related⟩
    refine ⟨e,List.mem_filter.mpr ⟨member,?_⟩,rfl⟩
    simp [Edge.active,active,left,right,related]

/-- What a call on distinct facts leaves: every pair linked, one new edge for each pair
    that was not, and nothing else changed. -/
structure Links (fact_ids : List FactId) (new_edges : List (Int × FactId × FactId)) (s t : Tables) : Prop where
  linked : ∀ a ∈ fact_ids, ∀ b ∈ fact_ids, a ≠ b → Linked t a b
  once : (new_edges.map Prod.snd).Nodup
  missing : ∀ a b, (a,b) ∈ new_edges.map Prod.snd ↔ a ∈ fact_ids ∧ b ∈ fact_ids ∧ a ≠ b ∧ ¬ Linked s a b
  apart : ∀ edge ∈ new_edges, edge.2.1 ≠ edge.2.2
  appends : Appends new_edges s t

theorem links_of_pairs {fact_ids : List FactId} {new_edges : List (Int × FactId × FactId)} {s t : Tables}
    (appends : Appends new_edges s t) (once : (new_edges.map Prod.snd).Nodup)
    (missing : ∀ a b, (a,b) ∈ new_edges.map Prod.snd ↔ a ∈ fact_ids ∧ b ∈ fact_ids ∧ a ≠ b ∧ ¬ Linked s a b) :
    Links fact_ids new_edges s t := by
  refine ⟨fun a left b right different => ?_,once,missing,fun edge member => ?_,appends⟩
  · rw [appends.linked_iff,missing]
    by_cases already : Linked s a b
    · exact .inl already
    · exact .inr ⟨left,right,different,already⟩
  · exact ((missing edge.2.1 edge.2.2).mp (List.mem_map_of_mem member)).2.2.1

theorem links_insert {fact_ids : List FactId} {new_edges : List (Int × FactId × FactId)} {now : DateTime} {s t : Db}
    (distinct : fact_ids.Nodup)
    (committed : Commits (insert_cosession_edges_atomic fact_ids CO_SESSION_RELATION CO_SESSION_WEIGHT CO_SESSION_SCOPE_ID now)
      s new_edges t) : Links fact_ids new_edges s.toTables t.toTables := by
  obtain ⟨existing,m,listed,loop⟩ := commits_bind.mp committed
  have known := fun a b => contains_existing listed (a := a) (b := b)
  obtain ⟨_,rfl⟩ := commits_query.mp listed
  obtain ⟨more,grown,appends,added⟩ := appends_loop _ loop
  rw [List.nil_append] at grown
  subst grown
  refine links_of_pairs appends ?_ fun a b => ?_
  · rw [added]
    exact (pairs_nodup distinct).filter _
  · rw [added,List.mem_filter,mem_pairs distinct]
    constructor
    · rintro ⟨⟨left,right,different⟩,absent⟩
      refine ⟨left,right,different,fun linked => ?_⟩
      rw [(known a b left right).mpr linked] at absent
      cases absent
    · rintro ⟨left,right,different,unlinked⟩
      refine ⟨⟨left,right,different⟩,?_⟩
      rw [Bool.eq_false_iff.mpr fun found => unlinked ((known a b left right).mp found)]
      rfl

/-- With fewer than two facts there is nothing to link. -/
theorem links_few {fact_ids : List FactId} (few : fact_ids.length < 2) (t : Tables) : Links fact_ids [] t t := by
  refine links_of_pairs (.refl t) List.nodup_nil fun a b => ?_
  constructor
  · intro listed
    exact absurd listed List.not_mem_nil
  · rintro ⟨left,right,different,_⟩
    match fact_ids,few with
    | [],_ => exact absurd left List.not_mem_nil
    | [only],_ => exact absurd ((List.mem_singleton.mp left).trans (List.mem_singleton.mp right).symm) different

/-- Once every pair is linked, a call adds nothing. -/
theorem Links.again {fact_ids : List FactId} {new_edges more : List (Int × FactId × FactId)} {s m t : Tables}
    (first : Links fact_ids new_edges s m) (second : Links fact_ids more m t) : more = [] := by
  refine List.eq_nil_iff_forall_not_mem.mpr fun edge member => ?_
  obtain ⟨left,right,different,unlinked⟩ := (second.missing edge.2.1 edge.2.2).mp (List.mem_map_of_mem member)
  exact unlinked (first.linked _ left _ right different)

end SessionEdges

open SessionEdges

/-- The fact is active, comes from an event of the session and lies in the scopes, where
    some are given. -/
def InSession (t : Tables) (session_id : String) (scope_ids : List Int) (f : Fact) : Prop :=
  f.t_expired = none ∧ (∃ event_id e, f.source_event_id = some event_id ∧ t.events.find event_id = some e ∧ e.session_id = some session_id) ∧
    (scope_ids = [] ∨ f.scope_id ∈ scope_ids)

/-- The facts listed for a session, each of them once. -/
theorem commits_list_active_by_session {session_id : String} {scope_ids : List Int} {fact_ids : List FactId} {s t : Db}
    (committed : Commits (FactStore.list_active_by_session session_id scope_ids) s fact_ids t) :
    t = s ∧ fact_ids.Nodup ∧ ∀ id, id ∈ fact_ids ↔ ∃ f ∈ s.facts.rows, f.id = id ∧ InSession s.toTables session_id scope_ids f := by
  obtain ⟨rfl,rfl⟩ := commits_query.mp committed
  refine ⟨rfl,t.facts.keys_nodup.sublist (List.filter_sublist.map _),fun id => ?_⟩
  have passes : ∀ f : Fact, (f.t_expired.isNone && (f.source_event_id.bind t.events.find).any (fun e => e.session_id == some session_id) &&
      (scope_ids.isEmpty || scope_ids.contains f.scope_id)) = true ↔ InSession t.toTables session_id scope_ids f := by
    intro f
    simp only [InSession,Bool.and_eq_true,Option.isNone_iff_eq_none,Option.any_eq_true,Option.bind_eq_some_iff,beq_iff_eq,Bool.or_eq_true,
      List.isEmpty_iff,List.contains_iff_mem]
    constructor
    · rintro ⟨⟨active,e,⟨event_id,source,found⟩,held⟩,inside⟩
      exact ⟨active,⟨event_id,e,source,found,held⟩,inside⟩
    · rintro ⟨active,⟨event_id,e,source,found,held⟩,inside⟩
      exact ⟨⟨active,e,⟨event_id,source,found⟩,held⟩,inside⟩
  simp only [List.mem_map,List.mem_filter,passes]
  constructor
  · rintro ⟨f,⟨member,kept⟩,same⟩
    exact ⟨f,member,same,kept⟩
  · rintro ⟨f,member,same,kept⟩
    exact ⟨f,⟨member,kept⟩,same⟩

/-- The edges of one call: those that `insert_cosession_edges_atomic` returns, and the
    graph gains them as the store does. -/
structure LinkCall (scope_ids : List Int) (fact_ids : List FactId) (new_edges : List (Int × FactId × FactId)) (session_id : String)
    (now : DateTime) (s t : Engine) : Prop where
  listed : ∀ id, id ∈ fact_ids ↔ ∃ f ∈ s.storage.facts.rows, f.id = id ∧ InSession s.storage.toTables session_id scope_ids f
  returned : (fact_ids.length < 2 ∧ new_edges = []) ∨
    Commits (insert_cosession_edges_atomic fact_ids CO_SESSION_RELATION CO_SESSION_WEIGHT CO_SESSION_SCOPE_ID now) s.storage new_edges t.storage
  links : Links fact_ids new_edges s.storage.toTables t.storage.toTables
  graph : t.graph.view = s.graph.view + (created new_edges : Multiset GraphEdgeSnapshot)

theorem commits_link_session_facts {ctx : MemoryCtx} {session_id : String} {scope : Option String} {now : DateTime} {s t : Engine} {n : Nat}
    (committed : Commits (link_session_facts ctx session_id scope now) s n t) : ∃ scope_ids fact_ids new_edges,
      scopeIds s.scope_tree scope = .ok scope_ids ∧ Commits (FactStore.list_active_by_session session_id scope_ids) s.storage fact_ids s.storage ∧
        LinkCall scope_ids fact_ids new_edges session_id now s t ∧ n = new_edges.length ∧
          t = ⟨t.storage,mirrorEdges new_edges s.graph,s.scope_tree⟩ := by
  obtain ⟨_,_,writable,rest₁⟩ := commits_bind.mp committed
  obtain ⟨_,rfl⟩ := commits_lift.mp writable
  obtain ⟨_,_,current,rest₂⟩ := commits_bind.mp rest₁
  obtain ⟨rfl,rfl⟩ := commits_get.mp current
  obtain ⟨scope_ids,_,resolved,rest₃⟩ := commits_bind.mp rest₂
  obtain ⟨found,rfl⟩ := commits_lift.mp resolved
  obtain ⟨fact_ids,_,ported,rest₄⟩ := commits_bind.mp rest₃
  obtain ⟨db,read,rfl⟩ := commits_port.mp ported
  obtain ⟨rfl,distinct,listed⟩ := commits_list_active_by_session read
  by_cases few : fact_ids.length < 2
  · rw [if_pos few] at rest₄
    obtain ⟨rfl,rfl⟩ := commits_pure.mp rest₄
    refine ⟨scope_ids,fact_ids,[],found,read,⟨listed,.inl ⟨few,rfl⟩,links_few few _,?_⟩,rfl,rfl⟩
    simp [created]
  · rw [if_neg few] at rest₄
    obtain ⟨new_edges,_,inserting,rest₅⟩ := commits_bind.mp rest₄
    obtain ⟨db,inserted,rfl⟩ := commits_port.mp inserting
    obtain ⟨_,_,mirrored,last⟩ := commits_bind.mp rest₅
    have replayed := commits_mirror.mp mirrored
    obtain ⟨rfl,rfl⟩ := commits_pure.mp last
    subst replayed
    refine ⟨scope_ids,fact_ids,new_edges,found,read,⟨listed,.inr inserted,links_insert distinct inserted,?_⟩,rfl,rfl⟩
    rw [← adding_apply]
    exact view_mirrorEdges new_edges _

/-- Linking a session leaves an active edge in both directions between any two of its
    active facts and adds one for each ordered pair that had none, to the store and to the
    graph alike; a second call adds nothing. -/
theorem link_session_facts_exact {ctx : MemoryCtx} {session_id : String} {scope : Option String} {now : DateTime} {s t : Engine} {n : Nat}
    (committed : Commits (link_session_facts ctx session_id scope now) s n t) : ∃ scope_ids fact_ids new_edges,
      scopeIds s.scope_tree scope = .ok scope_ids ∧ LinkCall scope_ids fact_ids new_edges session_id now s t ∧ n = new_edges.length ∧
        ∀ now' n' t', Commits (link_session_facts ctx session_id scope now') t n' t' → n' = 0 ∧ t' = t := by
  obtain ⟨scope_ids,fact_ids,new_edges,found,read,call,counted,ended⟩ := commits_link_session_facts committed
  refine ⟨scope_ids,fact_ids,new_edges,found,call,counted,fun now' n' t' repeated => ?_⟩
  obtain ⟨scope_ids',fact_ids',more,found',read',call',counted',ended'⟩ := commits_link_session_facts repeated
  have tree : t.scope_tree = s.scope_tree := by rw [ended]
  obtain rfl : scope_ids = scope_ids' := by
    rw [tree,found] at found'
    exact Except.ok.inj found'
  -- linking touches neither facts nor events, so the second call lists the same ones
  obtain rfl : fact_ids' = fact_ids := by
    obtain ⟨rfl,_⟩ := commits_query.mp read
    obtain ⟨rfl,_⟩ := commits_query.mp read'
    rw [call.links.appends.rest]
  obtain rfl : more = [] := call.links.again call'.links
  have same : t'.storage = t.storage := Db.ext call'.links.appends.eq_of_nil
  refine ⟨counted',?_⟩
  rw [ended',same]
  rfl

namespace Sample

def visit : NewEvent := ⟨moment,.ToolCall,.obj [],"test",some "s",1,"",0,none⟩

/-- Two facts of one session. -/
def session : Op Unit := port do
  let event ← EventStore.insert backend visit
  let _ ← FactStore.insert backend { newFact "a" with source_event_id := some event }
  let _ ← FactStore.insert backend { newFact "b" with source_event_id := some event }

end Sample

theorem link_session_facts_exact_sample : ∃ s t, Commits (link_session_facts Sample.ctx "s" none Sample.moment) s 2 t ∧
    ∃ scope_ids fact_ids new_edges, scopeIds s.scope_tree none = .ok scope_ids ∧
      LinkCall scope_ids fact_ids new_edges "s" Sample.moment s t ∧ 2 = new_edges.length ∧
        ∀ now' n' t', Commits (link_session_facts Sample.ctx "s" none now') t n' t' → n' = 0 ∧ t' = t := by
  have ran : Ends Sample.session Sample.blank (fun _ e =>
      Ends (link_session_facts Sample.ctx "s" none Sample.moment) e fun n _ => n == 2) = true := by
    decide +kernel
  obtain ⟨_,s,_,ran⟩ := commits_of_ends ran
  obtain ⟨n,t,linked,two⟩ := commits_of_ends ran
  obtain rfl : n = 2 := eq_of_beq two
  exact ⟨s,t,linked,link_session_facts_exact linked⟩

end MemoryEngine
