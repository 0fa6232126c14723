import MemoryEngine.Bootstrap
import MemoryEngine.Constraints
import MemoryEngine.TimeText

/-! Occurrences of one content in one scope. The first of them is inserted and every
later one reinforces the row it finds, so the row is a fold over the order in which the
occurrences come. -/

namespace MemoryEngine
open Time KeyedTable Transaction

section folds
variable {α : Type}

/-- The one of two values that comes first. -/
def sooner (before : α → α → Bool) (a b : α) : α := if before b a then b else a

/-- A fold keeps its start or something before it. -/
theorem foldl_sooner_cases (before : α → α → Bool) (trans : ∀ a b c, before a b → before b c → before a c) (items : List α) (first : α) :
    items.foldl (sooner before) first = first ∨ before (items.foldl (sooner before) first) first = true := by
  induction items generalizing first with
  | nil => exact .inl rfl
  | cons item rest ih =>
    rw [List.foldl_cons]
    have later := ih (sooner before first item)
    by_cases replaced : before item first = true
    · have here : sooner before first item = item := if_pos replaced
      rw [here] at later ⊢
      rcases later with same | earlier
      · exact .inr (by rwa [same])
      · exact .inr (trans _ _ _ earlier replaced)
    · have here : sooner before first item = first := if_neg replaced
      rwa [here] at later ⊢

/-- A value that comes before all others is what the fold ends with. -/
theorem foldl_sooner_eq {before : α → α → Bool} (asymm : ∀ a b, before a b = true → before b a = false) {best : α} (items : List α) {first : α} (listed : best ∈ first :: items)
    (ahead : ∀ a ∈ first :: items, a = best ∨ before best a = true) : items.foldl (sooner before) first = best := by
  induction items generalizing first with
  | nil => exact (List.mem_singleton.mp listed).symm
  | cons item rest ih =>
    rw [List.foldl_cons]
    have front := ahead first List.mem_cons_self
    have next := ahead item (List.mem_cons_of_mem _ List.mem_cons_self)
    have others : ∀ a ∈ rest, a = best ∨ before best a = true := fun a member =>
      ahead a (List.mem_cons_of_mem _ (List.mem_cons_of_mem _ member))
    by_cases replaced : before item first = true
    · have here : sooner before first item = item := if_pos replaced
      rw [here]
      refine ih ?_ (List.forall_mem_cons.mpr ⟨next,others⟩)
      rcases List.mem_cons.mp listed with rfl | member
      · rcases next with same | behind
        · exact List.mem_cons.mpr (.inl same.symm)
        · rw [asymm _ _ behind] at replaced
          cases replaced
      · exact member
    · have here : sooner before first item = first := if_neg replaced
      rw [here]
      refine ih ?_ (List.forall_mem_cons.mpr ⟨front,others⟩)
      rcases List.mem_cons.mp listed with rfl | member
      · exact List.mem_cons_self
      · rcases List.mem_cons.mp member with rfl | member
        · rcases front with rfl | ahead
          · exact List.mem_cons_self
          · exact absurd ahead replaced
        · exact List.mem_cons_of_mem _ member

end folds

theorem textLt_irrefl (a : DateTime) : a.textLt a = false := decide_eq_false (String.lt_irrefl _)

theorem textLt_trans {a b c : DateTime} (left : a.textLt b = true) (right : b.textLt c = true) : a.textLt c = true :=
  decide_eq_true (String.lt_trans (of_decide_eq_true left) (of_decide_eq_true right))

theorem textLt_asymm {a b : DateTime} (less : a.textLt b = true) : b.textLt a = false := by
  by_contra back
  rw [Bool.not_eq_false] at back
  have loop := textLt_trans less back
  rw [textLt_irrefl] at loop
  cases loop

/-- The active facts of a content in a scope. -/
def Tables.occupants (t : Tables) (content : String) (scope_id : Int) : List Fact :=
  t.facts.rows.filter fun f => f.content == content && f.scope_id == scope_id && f.t_expired.isNone

namespace FactStore
variable {self : SqliteBackend}

/-- One more mention of a content in a scope: an active fact that the store can hold, and
    that nobody has accessed yet. -/
structure Occurs (backend : SqliteBackend) (t : Tables) (content : String) (scope_id : Int) (o : NewFact) : Prop where
  content : o.content = content
  scope : o.scope_id = scope_id
  active : o.t_expired = none
  fresh : o.access_count = 0
  sized : o.embedding.length = backend.embed_dim
  referenced : Referenced t o

/-- The row sums up the occurrences: first and last time, any pin, the highest importance,
    its score, and one access for each repetition. -/
structure SumsUp (occurrences : List NewFact) (f : Fact) : Prop where
  earliest : IsLeast {t | ∃ o ∈ occurrences, o.t_created = t} f.t_created
  latest : IsGreatest {t | ∃ o ∈ occurrences, o.last_accessed = t} f.last_accessed
  pinned : f.is_pinned = occurrences.any NewFact.is_pinned
  reached : ∃ o ∈ occurrences, o.base_importance = .num f.base_importance
  strongest : ∀ o ∈ occurrences, ∃ importance ≤ f.base_importance, o.base_importance = .num importance
  scored : f.importance_score = f.base_importance
  counted : f.access_count + 1 = occurrences.length

/-- In every order the occurrences end in one active row, which sums them up. -/
def OrderIndependent (self : SqliteBackend) (db : Db) (content : String) (scope_id : Int) (occurrences : List NewFact) : Prop :=
  ∀ order, order.Perm occurrences → ∃ flags t, Commits (Bootstrap.ingestFacts self none order) db flags t ∧
    ∃ f, t.occupants content scope_id = [f] ∧ SumsUp occurrences f

/-- The row after one more occurrence. -/
def reinforcing (f : Fact) (o : NewFact) : Fact :=
  match o.base_importance with
  | .num importance => reinforced o importance f
  | .nan => f

theorem reinforcing_num {o : NewFact} {importance : SqlReal} (given : o.base_importance = .num importance) (f : Fact) :
    reinforcing f o = reinforced o importance f := by
  unfold reinforcing
  rw [given]

theorem existing_none {t : Tables} {o : NewFact} (vacant : t.occupants o.content o.scope_id = []) : existing self o t = none := by
  unfold existing
  rw [Option.map_eq_none_iff,List.find?_eq_none]
  intro f member taken
  have listed : f ∈ t.occupants o.content o.scope_id := by
    refine List.mem_filter.mpr ⟨member,?_⟩
    simp only [Bool.and_eq_true] at taken ⊢
    exact ⟨⟨taken.1.1.2,taken.1.2⟩,taken.2⟩
  rw [vacant] at listed
  cases listed

theorem existing_some {t : Tables} {o : NewFact} {f : Fact} (held : t.occupants o.content o.scope_id = [f])
    (hashed : f.content_hash = self.content_hash o.content) : existing self o t = some f.id := by
  have listed : f ∈ t.occupants o.content o.scope_id := by rw [held]; exact List.mem_singleton_self f
  obtain ⟨member,same⟩ := List.mem_filter.mp listed
  simp only [Bool.and_eq_true] at same
  unfold existing
  cases found : t.facts.rows.find? (fun f => f.content_hash == self.content_hash o.content && f.content == o.content &&
      f.scope_id == o.scope_id && f.t_expired.isNone) with
  | none => exact absurd (List.find?_eq_none.mp found f member) (by simp [hashed,same])
  | some g =>
    have taken := List.find?_some found
    simp only [Bool.and_eq_true] at taken
    have also : g ∈ t.occupants o.content o.scope_id := by
      refine List.mem_filter.mpr ⟨List.mem_of_find?_eq_some found,?_⟩
      simp only [Bool.and_eq_true]
      exact ⟨⟨taken.1.1.2,taken.1.2⟩,taken.2⟩
    rw [held] at also
    rw [List.mem_singleton.mp also,Option.map_some]

theorem Occurs.of_kept {t t' : Tables} {content : String} {scope_id : Int} {o : NewFact} (occurs : Occurs self t content scope_id o)
    (scopes : t'.scopes = t.scopes) (events : t'.events = t.events) : Occurs self t' content scope_id o where
  content := occurs.content
  scope := occurs.scope
  active := occurs.active
  fresh := occurs.fresh
  sized := occurs.sized
  referenced := by
    unfold Referenced
    rw [scopes,events]
    exact occurs.referenced

/-- The first occurrence is inserted. -/
theorem insert_or_reinforce_first {content : String} {scope_id : Int} {o : NewFact} {importance : SqlReal} {db : Db}
    (occurs : Occurs self db.toTables content scope_id o) (given : o.base_importance = .num importance)
    (vacant : db.occupants content scope_id = []) : ∃ flag t, Commits (insert_or_reinforce self o) db flag t ∧
      t.scopes = db.scopes ∧ t.events = db.events ∧ t.occupants content scope_id = [newRow self o importance db.facts.nextId] := by
  obtain ⟨id,t,inserted⟩ := insert_commits_iff.mpr ⟨occurs.sized,by rw [given]; simp,occurs.referenced⟩
  obtain ⟨_,i,found,_,written⟩ := commits_insert.mp inserted
  obtain rfl : i = importance := by
    rw [given] at found
    exact (F64.num.inj found).symm
  refine ⟨(id,false),t,?_,by rw [written],by rw [written],?_⟩
  · refine commits_bind.mpr ⟨(),db,commits_require.mpr ⟨occurs.sized,rfl⟩,commits_bind.mpr ⟨_,db,commits_query.mpr ⟨rfl,rfl⟩,?_⟩⟩
    rw [existing_none (by rw [occurs.content,occurs.scope]; exact vacant)]
    exact commits_bind.mpr ⟨id,t,inserted,commits_pure.mpr ⟨rfl,rfl⟩⟩
  · unfold Tables.occupants at vacant ⊢
    rw [written,Table.insert_rows,List.filter_append,vacant,List.nil_append,List.filter_singleton]
    simp [newRow,occurs.content,occurs.scope,occurs.active]

/-- A change that leaves content, scope and activity alone rewrites the occupant in place. -/
theorem occupants_updateFact {t : Tables} {content : String} {scope_id : Int} {f : Fact} {change : Fact → Fact} {same : ∀ f, (change f).id = f.id}
    (kept : ∀ f, (change f).content = f.content ∧ (change f).scope_id = f.scope_id ∧ (change f).t_expired = f.t_expired)
    (held : t.occupants content scope_id = [f]) : (t.updateFact f.id change same).occupants content scope_id = [change f] := by
  unfold Tables.occupants at held ⊢
  rw [Tables.updateFact_facts,Table.update_rows,List.filter_map]
  have alike : ((fun f : Fact => f.content == content && f.scope_id == scope_id && f.t_expired.isNone) ∘
      fun row => if row.id == f.id then change row else row) =
        fun f : Fact => f.content == content && f.scope_id == scope_id && f.t_expired.isNone := by
    funext row
    obtain ⟨content,scope,expired⟩ := kept row
    rw [Function.comp_apply]
    split
    · rw [content,scope,expired]
    · rfl
  rw [alike,held]
  simp

/-- What a reinforcement leaves alone. -/
theorem reinforced_kept (o : NewFact) (importance : SqlReal) (f : Fact) : (reinforced o importance f).content = f.content ∧
    (reinforced o importance f).scope_id = f.scope_id ∧ (reinforced o importance f).t_expired = f.t_expired := by
  simp only [reinforced,and_self]

theorem reinforced_links (o : NewFact) (importance : SqlReal) (f : Fact) : (reinforced o importance f).scope_id = f.scope_id ∧
    (reinforced o importance f).source_event_id = f.source_event_id := by
  simp only [reinforced,and_self]

theorem reinforcing_hash (f : Fact) (o : NewFact) : (reinforcing f o).content_hash = f.content_hash := by
  unfold reinforcing
  split
  · simp only [reinforced]
  · rfl

/-- A later occurrence reinforces the row. -/
theorem insert_or_reinforce_later {content : String} {scope_id : Int} {o : NewFact} {importance : SqlReal} {db : Db} {f : Fact}
    (occurs : Occurs self db.toTables content scope_id o) (given : o.base_importance = .num importance)
    (held : db.occupants content scope_id = [f]) (hashed : f.content_hash = self.content_hash content) :
    ∃ flag t, Commits (insert_or_reinforce self o) db flag t ∧ t.scopes = db.scopes ∧ t.events = db.events ∧
      t.occupants content scope_id = [reinforcing f o] := by
  obtain ⟨t,written⟩ := exists_updated db (fun g => g.id == f.id) (reinforced o importance) (reinforced_id o importance)
    (reinforced_links o importance)
  refine ⟨(f.id,true),t,?_,by rw [written],by rw [written],?_⟩
  · refine commits_bind.mpr ⟨(),db,commits_require.mpr ⟨occurs.sized,rfl⟩,commits_bind.mpr ⟨_,db,commits_query.mpr ⟨rfl,rfl⟩,?_⟩⟩
    rw [existing_some (by rw [occurs.content,occurs.scope]; exact held) (by rw [occurs.content]; exact hashed)]
    refine commits_bind.mpr ⟨(),t,?_,commits_pure.mpr ⟨rfl,rfl⟩⟩
    unfold reinforce
    rw [given]
    exact commits_execute.mpr written
  · rw [written,reinforcing_num given]
    exact occupants_updateFact (reinforced_kept o importance) held

/-- Once the row is there, the rest of the occurrences folds into it. -/
theorem ingest_rest {content : String} {scope_id : Int} {rest : List NewFact} {db : Db} {f : Fact}
    (occurs : ∀ o ∈ rest, Occurs self db.toTables content scope_id o) (given : ∀ o ∈ rest, ∃ importance, o.base_importance = .num importance)
    (held : db.occupants content scope_id = [f]) (hashed : f.content_hash = self.content_hash content) (flags : List (FactId × Bool)) :
    ∃ flags' t, Commits (rest.foldlM (fun out o => do
        let flag ← insert_or_reinforce self (Bootstrap.linked none o)
        return out ++ [flag]) flags) db flags' t ∧ t.occupants content scope_id = [rest.foldl reinforcing f] := by
  induction rest generalizing db f flags with
  | nil => exact ⟨flags,db,commits_pure.mpr ⟨rfl,rfl⟩,held⟩
  | cons o rest ih =>
    obtain ⟨here,others⟩ := List.forall_mem_cons.mp occurs
    obtain ⟨⟨importance,number⟩,numbers⟩ := List.forall_mem_cons.mp given
    obtain ⟨flag,m,reinforced,scopes,events,now⟩ := insert_or_reinforce_later here number held hashed
    obtain ⟨flags',t,later,last⟩ := ih (fun p member => (others p member).of_kept scopes events) numbers now
      ((reinforcing_hash f o).trans hashed) (flags ++ [flag])
    refine ⟨flags',t,?_,last⟩
    rw [List.foldlM_cons]
    exact commits_bind.mpr ⟨_,m,commits_bind.mpr ⟨flag,m,reinforced,commits_pure.mpr ⟨rfl,rfl⟩⟩,later⟩

/-- What any order of the occurrences ends in. -/
theorem ingest_order {content : String} {scope_id : Int} {o : NewFact} {rest : List NewFact} {importance : SqlReal} {db : Db}
    (occurs : ∀ p ∈ o :: rest, Occurs self db.toTables content scope_id p) (first : o.base_importance = .num importance)
    (given : ∀ p ∈ rest, ∃ importance, p.base_importance = .num importance) (vacant : db.occupants content scope_id = []) :
    ∃ flags t, Commits (Bootstrap.ingestFacts self none (o :: rest)) db flags t ∧
      t.occupants content scope_id = [rest.foldl reinforcing (newRow self o importance db.facts.nextId)] := by
  obtain ⟨here,others⟩ := List.forall_mem_cons.mp occurs
  obtain ⟨flag,m,inserted,scopes,events,now⟩ := insert_or_reinforce_first here first vacant
  have hashed : (newRow self o importance db.facts.nextId).content_hash = self.content_hash content := by
    rw [← here.content]
    rfl
  obtain ⟨flags,t,later,last⟩ := ingest_rest (fun p member => (others p member).of_kept scopes events) given now hashed ([] ++ [flag])
  refine ⟨flags,t,?_,last⟩
  unfold Bootstrap.ingestFacts
  rw [List.foldlM_cons]
  exact commits_bind.mpr ⟨_,m,commits_bind.mpr ⟨flag,m,inserted,commits_pure.mpr ⟨rfl,rfl⟩⟩,later⟩

/-- A column that every occurrence folds into on its own. -/
theorem foldl_column {α : Type} (column : Fact → α) (step : α → NewFact → α) {rest : List NewFact}
    (given : ∀ p ∈ rest, ∃ importance, p.base_importance = .num importance)
    (steps : ∀ (o : NewFact) importance f, o.base_importance = .num importance → column (reinforced o importance f) = step (column f) o)
    (f : Fact) : column (rest.foldl reinforcing f) = rest.foldl step (column f) := by
  induction rest generalizing f with
  | nil => rfl
  | cons o rest ih =>
    obtain ⟨⟨importance,number⟩,others⟩ := List.forall_mem_cons.mp given
    rw [List.foldl_cons,List.foldl_cons,ih others,reinforcing_num number,steps o importance f number]

theorem foldl_count (rest : List NewFact) (n : Int) : rest.foldl (fun n _ => n + 1) n = n + rest.length := by
  induction rest generalizing n with
  | nil => simp
  | cons o rest ih =>
    rw [List.foldl_cons,ih,List.length_cons]
    push_cast
    omega

theorem foldl_pin (rest : List NewFact) (pin : Bool) : rest.foldl (fun pin o => pin || o.is_pinned) pin = (pin || rest.any NewFact.is_pinned) := by
  induction rest generalizing pin with
  | nil => simp
  | cons o rest ih => rw [List.foldl_cons,ih,List.any_cons,Bool.or_assoc]

/-- The base importance ends at the highest one. -/
theorem foldl_importance {rest : List NewFact} (given : ∀ p ∈ rest, ∃ importance, p.base_importance = .num importance) (f : Fact) :
    f.base_importance ≤ (rest.foldl reinforcing f).base_importance ∧
      (∀ p ∈ rest, ∃ importance ≤ (rest.foldl reinforcing f).base_importance, p.base_importance = .num importance) ∧
        ((rest.foldl reinforcing f).base_importance = f.base_importance ∨
          ∃ p ∈ rest, p.base_importance = .num (rest.foldl reinforcing f).base_importance) := by
  induction rest generalizing f with
  | nil => exact ⟨le_refl _,by simp,.inl rfl⟩
  | cons o rest ih =>
    obtain ⟨⟨importance,number⟩,others⟩ := List.forall_mem_cons.mp given
    obtain ⟨above,bound,reached⟩ := ih others (reinforcing f o)
    have here : (reinforcing f o).base_importance = max f.base_importance importance := by
      rw [reinforcing_num number]
      simp only [reinforced]
    rw [List.foldl_cons]
    rw [here] at above reached
    refine ⟨(le_max_left _ _).trans above,List.forall_mem_cons.mpr ⟨⟨importance,(le_max_right _ _).trans above,number⟩,bound⟩,?_⟩
    rcases reached with same | ⟨p,member,same⟩
    · rcases max_choice f.base_importance importance with kept | raised
      · exact .inl (same.trans kept)
      · refine .inr ⟨o,List.mem_cons_self,?_⟩
        rw [same,raised,number]
    · exact .inr ⟨p,List.mem_cons_of_mem _ member,same⟩

/-- The columns of the row at the end, each as a fold over the occurrences. -/
structure Folded (o : NewFact) (importance : SqlReal) (rest : List NewFact) (f : Fact) : Prop where
  created : f.t_created = (rest.map NewFact.t_created).foldl textMin o.t_created
  accessed : f.last_accessed = (rest.map NewFact.last_accessed).foldl textMax o.last_accessed
  pinned : f.is_pinned = (o :: rest).any NewFact.is_pinned
  reached : ∃ p ∈ o :: rest, p.base_importance = .num f.base_importance
  strongest : ∀ p ∈ o :: rest, ∃ importance ≤ f.base_importance, p.base_importance = .num importance
  scored : f.importance_score = importance
  counted : f.access_count = rest.length

theorem folded {o : NewFact} {importance : SqlReal} {rest : List NewFact} {id : FactId} (fresh : o.access_count = 0)
    (first : o.base_importance = .num importance) (given : ∀ p ∈ rest, ∃ importance, p.base_importance = .num importance) :
    Folded o importance rest (rest.foldl reinforcing (newRow self o importance id)) := by
  obtain ⟨above,bound,reached⟩ := foldl_importance given (newRow self o importance id)
  refine ⟨?_,?_,?_,?_,?_,?_,?_⟩
  · rw [List.foldl_map]
    exact foldl_column Fact.t_created _ given (fun _ _ _ _ => by simp only [reinforced]) _
  · rw [List.foldl_map]
    exact foldl_column Fact.last_accessed _ given (fun _ _ _ _ => by simp only [reinforced]) _
  · rw [List.any_cons,← foldl_pin]
    exact foldl_column Fact.is_pinned _ given (fun _ _ _ _ => by simp only [reinforced]) _
  · rcases reached with same | ⟨p,member,same⟩
    · refine ⟨o,List.mem_cons_self,?_⟩
      rw [same]
      exact first
    · exact ⟨p,List.mem_cons_of_mem _ member,same⟩
  · exact List.forall_mem_cons.mpr ⟨⟨importance,above,first⟩,bound⟩
  · have kept := foldl_column Fact.importance_score (fun score _ => score) given (fun _ _ _ _ => by simp only [reinforced])
      (newRow self o importance id)
    rw [kept,List.foldl_fixed]
    rfl
  · have counts := foldl_column Fact.access_count (fun n _ => n + 1) given (fun _ _ _ _ => by simp only [reinforced])
      (newRow self o importance id)
    have zero : (newRow self o importance id).access_count = 0 := fresh
    rw [counts,foldl_count,zero,Int.zero_add]

/-- One occurrence was created first, by the calendar and by the texts that the store compares. -/
def Earliest (occurrences : List NewFact) (first : DateTime) : Prop :=
  (∃ o ∈ occurrences, o.t_created = first) ∧ ∀ o ∈ occurrences, o.t_created = first ∨ first < o.t_created ∧ first.textLt o.t_created = true

def Latest (occurrences : List NewFact) (last : DateTime) : Prop :=
  (∃ o ∈ occurrences, o.last_accessed = last) ∧ ∀ o ∈ occurrences, o.last_accessed = last ∨ o.last_accessed < last ∧ o.last_accessed.textLt last = true

theorem textMin_eq_sooner : textMin = sooner DateTime.textLt := by
  funext a b
  rfl

theorem textMax_eq_sooner : textMax = sooner fun a b => b.textLt a := by
  funext a b
  rfl

/-- Under the condition every order sums up. -/
theorem sumsUp_of_even {o : NewFact} {rest occurrences : List NewFact} {importance : SqlReal} {f : Fact} {first last : DateTime}
    (order : (o :: rest).Perm occurrences) (fold : Folded o importance rest f) (even : ∀ p ∈ occurrences, p.base_importance = .num importance)
    (earliest : Earliest occurrences first) (latest : Latest occurrences last) : SumsUp occurrences f := by
  have created : f.t_created = first := by
    rw [fold.created,textMin_eq_sooner]
    refine foldl_sooner_eq (fun a b => textLt_asymm) _ ?_ ?_
    · obtain ⟨p,member,same⟩ := earliest.1
      have listed := List.mem_map_of_mem (f := NewFact.t_created) (order.mem_iff.mpr member)
      rwa [same,List.map_cons] at listed
    · intro t listed
      rw [← List.map_cons] at listed
      obtain ⟨p,member,rfl⟩ := List.mem_map.mp listed
      exact (earliest.2 p (order.mem_iff.mp member)).imp_right And.right
  have accessed : f.last_accessed = last := by
    rw [fold.accessed,textMax_eq_sooner]
    refine foldl_sooner_eq (fun a b => textLt_asymm) _ ?_ ?_
    · obtain ⟨p,member,same⟩ := latest.1
      have listed := List.mem_map_of_mem (f := NewFact.last_accessed) (order.mem_iff.mpr member)
      rwa [same,List.map_cons] at listed
    · intro t listed
      rw [← List.map_cons] at listed
      obtain ⟨p,member,rfl⟩ := List.mem_map.mp listed
      exact (latest.2 p (order.mem_iff.mp member)).imp_right And.right
  obtain ⟨top,member,reached⟩ := fold.reached
  have based : f.base_importance = importance := by
    have same := even top (order.mem_iff.mp member)
    rw [reached] at same
    exact F64.num.inj same
  refine ⟨⟨?_,?_⟩,⟨?_,?_⟩,?_,?_,?_,?_,?_⟩
  · rw [created]
    exact earliest.1
  · rintro t ⟨p,member,rfl⟩
    rw [created]
    rcases earliest.2 p member with same | later
    · exact same.ge
    · exact later.1.le
  · rw [accessed]
    exact latest.1
  · rintro t ⟨p,member,rfl⟩
    rw [accessed]
    rcases latest.2 p member with same | before
    · exact same.le
    · exact before.1.le
  · rw [fold.pinned]
    exact order.any_eq
  · exact ⟨top,order.mem_iff.mp member,reached⟩
  · exact fun p member => fold.strongest p (order.mem_iff.mpr member)
  · rw [fold.scored,based]
  · rw [fold.counted,← order.length_eq,List.length_cons]
    push_cast
    rfl

/-- The row of the order in which a given occurrence comes first. -/
theorem leading {db : Db} {content : String} {scope_id : Int} {occurrences : List NewFact} {o : NewFact}
    (occurs : ∀ p ∈ occurrences, Occurs self db.toTables content scope_id p) (vacant : db.occupants content scope_id = [])
    (independent : OrderIndependent self db content scope_id occurrences) (member : o ∈ occurrences)
    (given : ∀ p ∈ occurrences, ∃ importance, p.base_importance = .num importance) :
    ∃ importance rest f, o.base_importance = .num importance ∧ SumsUp occurrences f ∧ Folded o importance rest f := by
  obtain ⟨front,back,split⟩ := List.append_of_mem member
  have order : (o :: (front ++ back)).Perm occurrences := by
    rw [split]
    exact List.perm_middle.symm
  obtain ⟨flags,t,committed,f,held,sums⟩ := independent _ order
  obtain ⟨importance,number⟩ := given o member
  have numbers : ∀ p ∈ front ++ back, ∃ importance, p.base_importance = .num importance := fun p listed =>
    given p (order.mem_iff.mp (List.mem_cons_of_mem _ listed))
  obtain ⟨flags',t',again,row⟩ := ingest_order (fun p listed => occurs p (order.mem_iff.mp listed)) number numbers vacant
  obtain ⟨_,rfl⟩ := committed.functional again
  rw [held] at row
  refine ⟨importance,front ++ back,f,number,sums,?_⟩
  rw [List.singleton_inj.mp row]
  exact folded (occurs o member).fresh number numbers

/-- The row is the same for every order exactly when the occurrences agree on the importance,
    and the first creation and the last access are so by their texts as well. -/
theorem order_independent_iff {db : Db} {content : String} {scope_id : Int} {occurrences : List NewFact} (some : occurrences ≠ [])
    (occurs : ∀ o ∈ occurrences, Occurs self db.toTables content scope_id o) (vacant : db.occupants content scope_id = []) :
    OrderIndependent self db content scope_id occurrences ↔
      (∃ importance, ∀ o ∈ occurrences, o.base_importance = .num importance) ∧ (∃ first, Earliest occurrences first) ∧
        ∃ last, Latest occurrences last := by
  constructor
  · intro independent
    obtain ⟨_,_,_,f,_,sums⟩ := independent occurrences (List.Perm.refl _)
    have given : ∀ p ∈ occurrences, ∃ importance, p.base_importance = .num importance := by
      intro p member
      obtain ⟨importance,_,number⟩ := sums.strongest p member
      exact ⟨importance,number⟩
    refine ⟨⟨f.base_importance,fun o member => ?_⟩,⟨f.t_created,sums.earliest.1,fun o member => ?_⟩,
      ⟨f.last_accessed,sums.latest.1,fun o member => ?_⟩⟩
    · obtain ⟨importance,rest,g,number,sums',fold⟩ := leading occurs vacant independent member given
      have most : g.base_importance = f.base_importance := by
        obtain ⟨p,listed,reached⟩ := sums.reached
        obtain ⟨i,below,same⟩ := sums'.strongest p listed
        obtain ⟨p',listed',reached'⟩ := sums'.reached
        obtain ⟨i',below',same'⟩ := sums.strongest p' listed'
        rw [reached] at same
        rw [reached'] at same'
        rw [← F64.num.inj same] at below
        rw [← F64.num.inj same'] at below'
        exact le_antisymm below' below
      rw [number,← fold.scored,sums'.scored,most]
    · obtain ⟨importance,rest,g,_,sums',fold⟩ := leading occurs vacant independent member given
      have same : g.t_created = f.t_created := sums'.earliest.unique sums.earliest
      have cases := foldl_sooner_cases DateTime.textLt (fun _ _ _ => textLt_trans) (rest.map NewFact.t_created) o.t_created
      rw [← textMin_eq_sooner,← fold.created,same] at cases
      have ahead : f.t_created ≤ o.t_created := sums.earliest.2 ⟨o,member,rfl⟩
      rcases cases with same | less
      · exact .inl same.symm
      · refine .inr ⟨lt_of_le_of_ne ahead fun equal => ?_,less⟩
        rw [equal,textLt_irrefl] at less
        cases less
    · obtain ⟨importance,rest,g,_,sums',fold⟩ := leading occurs vacant independent member given
      have same : g.last_accessed = f.last_accessed := sums'.latest.unique sums.latest
      have cases := foldl_sooner_cases (fun a b => b.textLt a) (fun _ _ _ left right => textLt_trans right left)
        (rest.map NewFact.last_accessed) o.last_accessed
      rw [← textMax_eq_sooner,← fold.accessed,same] at cases
      have behind : o.last_accessed ≤ f.last_accessed := sums.latest.2 ⟨o,member,rfl⟩
      rcases cases with same | more
      · exact .inl same.symm
      · refine .inr ⟨lt_of_le_of_ne behind fun equal => ?_,more⟩
        rw [equal,textLt_irrefl] at more
        cases more
  · rintro ⟨⟨importance,even⟩,⟨first,earliest⟩,last,latest⟩ order perm
    cases order with
    | nil => exact absurd perm.symm.eq_nil some
    | cons o rest =>
      have numbers : ∀ p ∈ rest, ∃ importance, p.base_importance = .num importance := fun p member =>
        ⟨importance,even p (perm.mem_iff.mp (List.mem_cons_of_mem _ member))⟩
      have number := even o (perm.mem_iff.mp List.mem_cons_self)
      obtain ⟨flags,t,committed,row⟩ := ingest_order (fun p member => occurs p (perm.mem_iff.mp member)) number numbers vacant
      refine ⟨flags,t,committed,_,row,sumsUp_of_even perm ?_ even earliest latest⟩
      exact folded (occurs o (perm.mem_iff.mp List.mem_cons_self)).fresh number numbers

namespace Sample
open MemoryEngine.Sample

def weak : NewFact := { newFact "a" with base_importance := F64.ofRat (1 / 4) }

def strong : NewFact := { newFact "a" with base_importance := F64.ofRat (3 / 4) }

def pinned : NewFact := { newFact "a" with is_pinned := true }

theorem occurs {o : NewFact} (content : o.content = "a") (rest : o.scope_id = 1 ∧ o.t_expired = none ∧ o.access_count = 0 ∧
    o.embedding.length = backend.embed_dim ∧ o.source_event_id = none) : Occurs backend Db.fresh.toTables "a" 1 o := by
  obtain ⟨scope,active,fresh,sized,unlinked⟩ := rest
  have held : Db.fresh.scopes.Has 1 := by decide
  refine ⟨content,scope,active,fresh,sized,by rwa [scope],fun e linked => ?_⟩
  rw [unlinked] at linked
  cases linked

def scores (t : Tables) : List (F64 × F64) := (t.occupants "a" 1).map fun f => (.num f.base_importance,.num f.importance_score)

end Sample

open MemoryEngine.Sample in
theorem order_independent_iff_sample : OrderIndependent backend Db.fresh "a" 1 [newFact "a",Sample.pinned] := by
  have alike : ∀ o ∈ [newFact "a",Sample.pinned], o.base_importance = .num ((1 / 2 : ℚ) : WithTop ℚ) ∧ o.t_created = moment ∧
      o.last_accessed = moment := List.forall_mem_cons.mpr ⟨⟨rfl,rfl,rfl⟩,List.forall_mem_singleton.mpr ⟨rfl,rfl,rfl⟩⟩
  have occurs : ∀ o ∈ [newFact "a",Sample.pinned], Occurs backend Db.fresh.toTables "a" 1 o := by
    refine List.forall_mem_cons.mpr ⟨?_,List.forall_mem_singleton.mpr ?_⟩
    · exact Sample.occurs rfl (by decide)
    · exact Sample.occurs rfl (by decide)
  have here : newFact "a" ∈ [newFact "a",Sample.pinned] := List.mem_cons_self
  have even : ∃ importance, ∀ o ∈ [newFact "a",Sample.pinned], o.base_importance = .num importance := ⟨_,fun o member => (alike o member).1⟩
  have first : Earliest [newFact "a",Sample.pinned] moment :=
    ⟨⟨_,here,(alike _ here).2.1⟩,fun o member => .inl (alike o member).2.1⟩
  have last : Latest [newFact "a",Sample.pinned] moment :=
    ⟨⟨_,here,(alike _ here).2.2⟩,fun o member => .inl (alike o member).2.2⟩
  exact (order_independent_iff (List.cons_ne_nil _ _) occurs rfl).mpr ⟨even,⟨moment,first⟩,⟨moment,last⟩⟩

open MemoryEngine.Sample in
/-- A weak mention before a strong one leaves the score of the weak one, and the strong one
    first leaves its own. -/
theorem score_of_the_first : (∃ flags t, Commits (Bootstrap.ingestFacts backend none [Sample.weak,Sample.strong]) Db.fresh flags t ∧
      Sample.scores t.toTables = [(F64.ofRat (3 / 4),F64.ofRat (1 / 4))]) ∧
    (∃ flags t, Commits (Bootstrap.ingestFacts backend none [Sample.strong,Sample.weak]) Db.fresh flags t ∧
      Sample.scores t.toTables = [(F64.ofRat (3 / 4),F64.ofRat (3 / 4))]) ∧
      ¬ OrderIndependent backend Db.fresh "a" 1 [Sample.weak,Sample.strong] := by
  have rising : Ends (Bootstrap.ingestFacts backend none [Sample.weak,Sample.strong]) Db.fresh (fun _ t =>
      Sample.scores t.toTables = [(F64.ofRat (3 / 4),F64.ofRat (1 / 4))]) = true := by decide +kernel
  have falling : Ends (Bootstrap.ingestFacts backend none [Sample.strong,Sample.weak]) Db.fresh (fun _ t =>
      Sample.scores t.toTables = [(F64.ofRat (3 / 4),F64.ofRat (3 / 4))]) = true := by decide +kernel
  obtain ⟨flags,t,committed,row⟩ := commits_of_ends rising
  obtain ⟨flags',t',committed',row'⟩ := commits_of_ends falling
  refine ⟨⟨flags,t,committed,of_decide_eq_true row⟩,⟨flags',t',committed',of_decide_eq_true row'⟩,fun independent => ?_⟩
  obtain ⟨_,_,again,f,held,sums⟩ := independent _ (List.Perm.refl _)
  obtain ⟨_,rfl⟩ := committed.functional again
  have columns := of_decide_eq_true row
  unfold Sample.scores at columns
  rw [held,List.map_singleton,List.singleton_inj,Prod.mk.injEq,sums.scored] at columns
  have equal := columns.1.symm.trans columns.2
  exact absurd equal (by decide +kernel)

end FactStore
end MemoryEngine
