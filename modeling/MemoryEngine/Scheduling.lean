import MemoryEngine.Resumed
import Mathlib.Data.List.MinMax
import Mathlib.Order.Bounds.Defs

/-! Scheduled facts. A consumer polls for the facts that are due, asks for the next time at
which one will be, and polls again then. -/

namespace MemoryEngine
open Time DateTime KeyedTable Transaction Ranking

/-- The valid time is still to come. -/
def FactStore.upcomingByText (now : DateTime) (f : Fact) : Bool :=
  f.t_valid.any (fun tv => now.textLt tv) && f.t_invalid.all (fun ti => now.textLt ti)

/-- The least text of an upcoming valid time, read back. -/
def FactStore.next_due_time (now : DateTime) (scope_ids : List Int) : Sql (Option DateTime) := do
  let earliest ← query fun t => List.argmin to_rfc3339 ((t.facts.rows.filter fun f =>
    f.t_expired.isNone && upcomingByText now f && inScopes scope_ids f).filterMap Fact.t_valid)
  match earliest with
  | some tv => do
    let tv ← readRow Readable tv
    return some tv
  | none => return none

/-- All due facts of the scopes, stamped where they have no stamp yet. -/
def list_due (ctx : MemoryCtx) (rows : Shuffle Fact) (now : DateTime) (scope : Option String) : Op (List Fact) := do
  let engine ← get
  let scope_ids ← resume_scope_ids engine.scope_tree scope
  let facts ← port (FactStore.list_due ctx.backend rows now scope_ids [] none)
  let unsurfaced_ids := (facts.filter fun f => f.surfaced_at.isNone).map Fact.id
  if unsurfaced_ids = [] then return facts else do
    let stamped ← stamp_surfaced_facts ctx unsurfaced_ids now
    return facts.map (apply_surfaced_stamps stamped)

/-- The clock is read by the call. -/
def next_due_time (clock : DateTime) (scope : Option String) : Op (Option DateTime) := do
  let engine ← get
  let scope_ids ← resume_scope_ids engine.scope_tree scope
  port (FactStore.next_due_time clock scope_ids)

/-- An instant whose text sorts like it. -/
def Time.DateTime.Dated (t : DateTime) : Prop := t.Readable ∧ Leaps t

instance (t : DateTime) : Decidable t.Dated := inferInstanceAs (Decidable (_ ∧ _))

/-- The valid time of the fact is of such instants. -/
def Fact.Dated (f : Fact) : Prop := (∀ tv ∈ f.t_valid, tv.Dated) ∧ ∀ ti ∈ f.t_invalid, ti.Dated

instance (f : Fact) : Decidable f.Dated := inferInstanceAs (Decidable (_ ∧ _))

/-- An active fact of the scopes. -/
def Fact.listed (scope_ids : List Int) (f : Fact) : Bool := f.t_expired.isNone && FactStore.inScopes scope_ids f

/-- What a poll makes of the fact. -/
def Fact.poll (scope_ids : List Int) (now : DateTime) (f : Fact) : Fact := if f.listed scope_ids then f.surface now else f

section texts
variable {a b now : DateTime} {f : Fact}

theorem Time.DateTime.Dated.textLt_iff (dated : a.Dated) (dated' : b.Dated) : a.textLt b = true ↔ a < b :=
  textLt_iff_of_readable dated.1 dated'.1 dated.2 dated'.2

theorem Fact.Dated.dueByText (dated : f.Dated) (instant : now.Dated) : FactStore.dueByText now f = f.is_temporally_due now := by
  refine Bool.eq_iff_iff.mpr (dueByText_iff.trans (.trans ?_ is_temporally_due_iff.symm))
  refine and_congr (exists_congr fun tv => and_congr_right fun set => ?_) (forall₂_congr fun ti ends => instant.textLt_iff (dated.2 ti ends))
  rw [← Bool.not_eq_true,instant.textLt_iff (dated.1 tv set),not_lt]

theorem upcomingByText_iff (dated : f.Dated) (instant : now.Dated) :
    FactStore.upcomingByText now f = true ↔ (∃ tv, f.t_valid = some tv ∧ now < tv) ∧ ∀ ti ∈ f.t_invalid, now < ti := by
  have spelled : FactStore.upcomingByText now f = true ↔
      (∃ tv, f.t_valid = some tv ∧ now.textLt tv = true) ∧ ∀ ti ∈ f.t_invalid, now.textLt ti = true := by
    cases set : f.t_valid <;> cases ends : f.t_invalid <;> simp [FactStore.upcomingByText,set,ends]
  exact spelled.trans (and_congr (exists_congr fun tv => and_congr_right fun set => instant.textLt_iff (dated.1 tv set))
    (forall₂_congr fun ti ends => instant.textLt_iff (dated.2 ti ends)))

/-- A poll changes nothing that it does not stamp. -/
theorem Fact.poll_blind {γ : Type} {p : Fact → γ} (blind : ∀ f ts, p { f with surfaced_at := ts } = p f) (scope_ids : List Int) (now : DateTime)
    (f : Fact) : p (f.poll scope_ids now) = p f := by
  unfold poll
  split
  · exact Fact.surface_blind blind now f
  · rfl

end texts

section calls
variable {ctx : MemoryCtx} {rows : Shuffle Fact} {now clock : DateTime} {scope : Option String} {scope_ids : List Int} {e e' : Engine}

/-- What a poll leaves: the facts of the store after it, and nothing else has changed. -/
structure Polled (scope_ids : List Int) (now : DateTime) (e e' : Engine) : Prop where
  rows : e'.storage.facts.rows = e.storage.facts.rows.map (Fact.poll scope_ids now)
  tree : e'.scope_tree = e.scope_tree

/-- The scopes are looked up in the tree at hand. -/
theorem commits_scoped {α : Type} {a : α} {x : List Int → Op α} (resolved : resume_scope_ids e.scope_tree scope = .ok scope_ids)
    (committed : Commits (do
      let engine ← get
      let ids ← resume_scope_ids engine.scope_tree scope
      x ids : Op α) e a e') : Commits (x scope_ids) e a e' := by
  obtain ⟨_,_,current,resolving⟩ := commits_bind.mp committed
  obtain ⟨rfl,rfl⟩ := commits_get.mp current
  obtain ⟨ids,_,lifted,rest⟩ := commits_bind.mp resolving
  obtain ⟨found,rfl⟩ := commits_lift.mp lifted
  cases resolved.symm.trans found
  exact rest

/-- The stamping of a poll is that of a resumed session with one tier. -/
theorem commits_stamping {facts response : List Fact} (due : ∀ f ∈ facts, f ∈ e.storage.facts.rows ∧ f.is_temporally_due now = true)
    (stamping : Commits (if (facts.filter fun f => f.surfaced_at.isNone).map Fact.id = [] then return facts else do
      let stamped ← stamp_surfaced_facts ctx ((facts.filter fun f => f.surfaced_at.isNone).map Fact.id) now
      return facts.map (apply_surfaced_stamps stamped) : Op (List Fact)) e response e') :
    response = facts.map (Fact.surface now) ∧ e' = { e with storage := e'.storage } ∧
      Stamped now (facts.map Fact.id) e.storage.toTables e'.storage.toTables := by
  let found : ResumeContext := ⟨[],[],facts,[]⟩
  have tier : found.facts = facts := List.append_nil facts
  have waiting : unsurfaced now found.facts = (facts.filter fun f => f.surfaced_at.isNone).map Fact.id := by
    rw [tier,unsurfaced]
    exact congrArg (List.map Fact.id) (List.filter_congr fun f listed => by rw [(due f listed).2,Bool.and_true])
  have surfaced : Commits (if unsurfaced now found.facts = [] then return found else do
      let stamped ← stamp_surfaced_facts ctx (unsurfaced now found.facts) now
      return found.map (apply_surfaced_stamps stamped) : Op ResumeContext) e ⟨[],[],response,[]⟩ e' := by
    rw [waiting]
    split at stamping
    · rename_i calm
      rw [if_pos calm]
      obtain ⟨rfl,rfl⟩ := commits_pure.mp stamping
      exact commits_pure.mpr ⟨rfl,rfl⟩
    · rename_i unstamped
      rw [if_neg unstamped]
      obtain ⟨stamped,m,written,last⟩ := commits_bind.mp stamping
      obtain ⟨rfl,rfl⟩ := commits_pure.mp last
      exact commits_bind.mpr ⟨stamped,_,written,commits_pure.mpr ⟨rfl,rfl⟩⟩
  obtain ⟨shown,store,stamped⟩ := commits_surfacing (fun f listed => (due f (tier ▸ listed)).1) surfaced
  rw [tier] at stamped
  exact ⟨congrArg ResumeContext.due shown,store,stamped⟩

/-- A poll returns the due facts as the store then has them. -/
theorem commits_list_due {response : List Fact} (dated : ∀ f ∈ e.storage.facts.rows, f.Dated) (instant : now.Dated)
    (resolved : resume_scope_ids e.scope_tree scope = .ok scope_ids) (listed : Commits (list_due ctx rows now scope) e response e') :
    Polled scope_ids now e e' ∧
      response.Perm (e'.storage.facts.rows.filter fun f => f.listed scope_ids && f.is_temporally_due now) := by
  have reading := commits_scoped resolved listed
  obtain ⟨facts,_,ported,stamping⟩ := commits_bind.mp reading
  obtain ⟨_,scanned,rfl⟩ := commits_port.mp ported
  obtain ⟨facts_eq,_,rfl⟩ := commits_readRows.mp scanned
  have contents : facts.Perm (e.storage.facts.rows.filter fun f => f.listed scope_ids && f.is_temporally_due now) := by
    rw [facts_eq]
    refine ((descending_perm _ _).trans scan_perm).trans (List.Perm.of_eq (List.filter_congr fun f row => ?_))
    rw [(dated f row).dueByText instant,Fact.listed,List.contains_nil,Bool.not_false,Bool.and_true,Bool.and_right_comm]
  have member : ∀ f, f ∈ facts ↔ f ∈ e.storage.facts.rows ∧ f.listed scope_ids = true ∧ f.is_temporally_due now = true := fun f => by
    rw [contents.mem_iff,List.mem_filter,Bool.and_eq_true]
  obtain ⟨rfl,store,stamped⟩ := commits_stamping (fun f found => ⟨((member f).mp found).1,((member f).mp found).2.2⟩) stamping
  have polled : ∀ f ∈ e.storage.facts.rows, f.surface_shown now (facts.map Fact.id) = f.poll scope_ids now := by
    intro f row
    by_cases shown : f.id ∈ facts.map Fact.id
    · obtain ⟨g,found,same⟩ := List.mem_map.mp shown
      obtain rfl : g = f := e.storage.facts.key_unique ((member g).mp found).1 row same
      rw [Fact.surface_shown_of_mem shown,Fact.poll,if_pos ((member g).mp found).2.1]
    · rw [Fact.surface_shown_of_not_mem shown,Fact.poll]
      split
      · rename_i active
        have idle : f.is_temporally_due now = false := by
          by_contra due
          exact shown (List.mem_map_of_mem ((member f).mpr ⟨row,active,Bool.not_eq_false _ ▸ due⟩))
        rw [Fact.surface,idle,Bool.and_false]
        rfl
      · rfl
  have rows_eq : e'.storage.facts.rows = e.storage.facts.rows.map (Fact.poll scope_ids now) := by
    rw [stamped.rows]
    exact List.map_congr_left polled
  refine ⟨⟨rows_eq,by rw [store]⟩,?_⟩
  have blind : ∀ f : Fact, ((f.poll scope_ids now).listed scope_ids && (f.poll scope_ids now).is_temporally_due now) = (f.listed scope_ids && f.is_temporally_due now) :=
    fun f => Fact.poll_blind (p := fun f => f.listed scope_ids && f.is_temporally_due now) (fun _ _ => rfl) scope_ids now f
  rw [rows_eq,List.filter_map]
  have kept := contents.map (Fact.poll scope_ids now)
  have same : facts.map (Fact.poll scope_ids now) = facts.map (Fact.surface now) :=
    List.map_congr_left fun f found => if_pos ((member f).mp found).2.1
  rw [same] at kept
  refine kept.trans (List.Perm.of_eq (congrArg _ (List.filter_congr fun f _ => ?_)))
  exact (blind f).symm

/-- The times at which an active fact will become valid and not be over before. -/
def Awaited (scope_ids : List Int) (clock : DateTime) (facts : List Fact) : Set DateTime :=
  { tv | ∃ f ∈ facts, f.listed scope_ids = true ∧ f.t_valid = some tv ∧ clock < tv ∧ ∀ ti ∈ f.t_invalid, clock < ti }

/-- The stamps do not count. -/
theorem awaited_map {change : Fact → Fact} (facts : List Fact)
    (blind : ∀ f : Fact, ((change f).listed scope_ids,(change f).t_valid,(change f).t_invalid) = (f.listed scope_ids,f.t_valid,f.t_invalid)) :
    Awaited scope_ids clock (facts.map change) = Awaited scope_ids clock facts := by
  simp only [Prod.mk.injEq] at blind
  ext tv
  simp only [Awaited,Set.mem_ofPred_eq,List.mem_map,exists_exists_and_eq_and,blind]

/-- The hint is the earliest awaited time. -/
theorem commits_next_due_time {hint : Option DateTime} (dated : ∀ f ∈ e.storage.facts.rows, f.Dated) (instant : clock.Dated)
    (resolved : resume_scope_ids e.scope_tree scope = .ok scope_ids) (hinted : Commits (next_due_time clock scope) e hint e') :
    e' = e ∧ (hint = none → Awaited scope_ids clock e.storage.facts.rows = ∅) ∧
      ∀ tv ∈ hint, IsLeast (Awaited scope_ids clock e.storage.facts.rows) tv := by
  have reading := commits_scoped resolved hinted
  obtain ⟨_,scanned,rfl⟩ := commits_port.mp reading
  obtain ⟨earliest,_,queried,read⟩ := commits_bind.mp scanned
  obtain ⟨least,rfl⟩ := commits_query.mp queried
  have member : ∀ tv, tv ∈ (e.storage.facts.rows.filter fun f =>
      f.t_expired.isNone && FactStore.upcomingByText clock f && FactStore.inScopes scope_ids f).filterMap Fact.t_valid ↔
      tv ∈ Awaited scope_ids clock e.storage.facts.rows := by
    intro tv
    simp only [List.mem_filterMap,List.mem_filter,Awaited,Set.mem_ofPred_eq,Fact.listed,Bool.and_eq_true]
    constructor
    · rintro ⟨f,⟨row,⟨active,upcoming⟩,inside⟩,set⟩
      obtain ⟨⟨_,set',later⟩,ongoing⟩ := (upcomingByText_iff (dated f row) instant).mp upcoming
      cases set.symm.trans set'
      exact ⟨f,row,⟨active,inside⟩,set,later,ongoing⟩
    · rintro ⟨f,row,⟨active,inside⟩,set,later,ongoing⟩
      exact ⟨f,⟨row,⟨active,(upcomingByText_iff (dated f row) instant).mpr ⟨⟨tv,set,later⟩,ongoing⟩⟩,inside⟩,set⟩
  cases earliest with
  | none =>
    obtain ⟨rfl,rfl⟩ := commits_pure.mp read
    refine ⟨rfl,fun _ => ?_,fun tv named => by cases named⟩
    refine Set.eq_empty_of_forall_notMem fun tv awaited => ?_
    rw [List.argmin_eq_none.mp least.symm] at member
    exact List.not_mem_nil ((member tv).mpr awaited)
  | some tv =>
    obtain ⟨_,_,parsed,last⟩ := commits_bind.mp read
    obtain ⟨legible,rfl⟩ := commits_lift.mp parsed
    obtain ⟨rfl,_⟩ := readRow_ok.mp legible
    obtain ⟨rfl,rfl⟩ := commits_pure.mp last
    refine ⟨rfl,fun missing => (by cases missing),fun tv' named => ?_⟩
    cases named
    refine ⟨(member _).mp (List.argmin_mem least.symm),fun tv' awaited => not_lt.mp fun earlier => ?_⟩
    -- the earlier time would have the smaller text
    have instants : ∀ {tv}, tv ∈ Awaited scope_ids clock e.storage.facts.rows → tv.Dated := by
      rintro tv ⟨f,row,_,set,_⟩
      exact (dated f row).1 tv set
    have ahead := ((instants awaited).textLt_iff (instants ((member _).mp (List.argmin_mem least.symm)))).mpr earlier
    exact absurd (decide_eq_true_iff.mp ahead) (List.not_lt_of_mem_argmin ((member _).mpr awaited) least.symm)

end calls

/-- A poll, and the clock when the consumer asks for the next time. -/
structure Visit where
  now : DateTime
  clock : DateTime

section consumer
variable (ctx : MemoryCtx) (rows : Shuffle Fact) (scope : Option String)

/-- A consumer that polls again at the time it was told. -/
inductive Consumer (e : Engine) : List Visit → Option DateTime → Engine → Prop
  | start {m e' : Engine} {now clock : DateTime} {response : List Fact} {hint : Option DateTime}
      (polled : Commits (list_due ctx rows now scope) e response m) (hinted : Commits (next_due_time clock scope) m hint e') :
      Consumer e [⟨now,clock⟩] hint e'
  | wake {m m' e' : Engine} {visits : List Visit} {now clock : DateTime} {response : List Fact} {hint : Option DateTime}
      (before : Consumer e visits (some now) m) (polled : Commits (list_due ctx rows now scope) m response m')
      (hinted : Commits (next_due_time clock scope) m' hint e') : Consumer e (visits ++ [⟨now,clock⟩]) hint e'

/-- The fact after all polls. -/
def Fact.visited (scope_ids : List Int) (visits : List Visit) (f : Fact) : Fact := visits.foldl (fun f v => f.poll scope_ids v.now) f

/-- The instants of a visit have texts that sort, and the clock does not run back. -/
def Visit.Dated (v : Visit) : Prop := v.now.Dated ∧ v.clock.Dated ∧ v.now ≤ v.clock

instance (v : Visit) : Decidable v.Dated := inferInstanceAs (Decidable (_ ∧ _))

variable {ctx rows scope} {scope_ids : List Int} {e e' : Engine} {visits : List Visit} {hint : Option DateTime}

theorem Fact.visited_concat (v : Visit) (f : Fact) : f.visited scope_ids (visits ++ [v]) = (f.visited scope_ids visits).poll scope_ids v.now := by
  rw [visited,List.foldl_append]
  rfl

theorem Fact.visited_blind {γ : Type} {p : Fact → γ} (blind : ∀ f ts, p { f with surfaced_at := ts } = p f) (visits : List Visit) (f : Fact) :
    p (f.visited scope_ids visits) = p f := by
  induction visits generalizing f with
  | nil => rfl
  | cons v visits ih => exact (ih (f.poll scope_ids v.now)).trans (Fact.poll_blind blind scope_ids v.now f)

/-- A stamp stays. -/
theorem Fact.visited_of_surfaced (visits : List Visit) {f : Fact} (stamped : f.surfaced_at ≠ none) : f.visited scope_ids visits = f := by
  induction visits with
  | nil => rfl
  | cons v visits ih =>
    have unchanged : f.poll scope_ids v.now = f := by
      unfold poll surface
      rw [Option.isNone_eq_false_iff.mpr (Option.isSome_iff_ne_none.mpr stamped)]
      exact ite_self f
    rw [visited,List.foldl_cons,unchanged]
    exact ih

/-- A fact without a stamp gets that of the first poll that finds it due. -/
theorem Fact.visited_surfaced_at (visits : List Visit) {f : Fact} (listed : f.listed scope_ids = true) (waiting : f.surfaced_at = none) :
    (f.visited scope_ids visits).surfaced_at = (visits.find? fun v => f.is_temporally_due v.now).map Visit.now := by
  induction visits with
  | nil => exact waiting
  | cons v visits ih =>
    rw [visited,List.foldl_cons,List.find?_cons,poll,if_pos listed,surface,waiting]
    cases due : f.is_temporally_due v.now with
    | true => exact congrArg Fact.surfaced_at (visited_of_surfaced visits (Option.some_ne_none v.now))
    | false => exact ih

/-- What a consumer leaves of the store. -/
structure Left (scope_ids : List Int) (visits : List Visit) (hint : Option DateTime) (e e' : Engine) : Prop where
  rows : e'.storage.facts.rows = e.storage.facts.rows.map (Fact.visited scope_ids visits)
  tree : e'.scope_tree = e.scope_tree
  hinted : ∃ v, visits.getLast? = some v ∧ (hint = none → Awaited scope_ids v.clock e.storage.facts.rows = ∅) ∧
    ∀ tv ∈ hint, IsLeast (Awaited scope_ids v.clock e.storage.facts.rows) tv

theorem Fact.visited_dated (dated : ∀ f ∈ e.storage.facts.rows, f.Dated) :
    ∀ f ∈ e.storage.facts.rows.map (Fact.visited scope_ids visits), f.Dated := by
  intro f listed
  obtain ⟨g,row,rfl⟩ := List.mem_map.mp listed
  exact (Fact.visited_blind (p := Fact.Dated) (fun _ _ => rfl) visits g).mpr (dated g row)

/-- What one visit adds. -/
theorem Left.visit {m m' : Engine} {now clock : DateTime} {response : List Fact} (dated : ∀ f ∈ e.storage.facts.rows, f.Dated)
    (resolved : resume_scope_ids e.scope_tree scope = .ok scope_ids) (instant : now.Dated) (instant' : clock.Dated)
    (rows_eq : m.storage.facts.rows = e.storage.facts.rows.map (Fact.visited scope_ids visits)) (tree : m.scope_tree = e.scope_tree)
    (polled : Commits (list_due ctx rows now scope) m response m') (asked : Commits (next_due_time clock scope) m' hint e') :
    Left scope_ids (visits ++ [⟨now,clock⟩]) hint e e' := by
  have dated_m : ∀ f ∈ m.storage.facts.rows, f.Dated := rows_eq ▸ Fact.visited_dated dated
  obtain ⟨poll,_⟩ := commits_list_due dated_m instant (tree ▸ resolved) polled
  have concat : m'.storage.facts.rows = e.storage.facts.rows.map (Fact.visited scope_ids (visits ++ [⟨now,clock⟩])) := by
    rw [poll.rows,rows_eq,List.map_map]
    exact List.map_congr_left fun f _ => (Fact.visited_concat ⟨now,clock⟩ f).symm
  have dated_m' : ∀ f ∈ m'.storage.facts.rows, f.Dated := concat ▸ Fact.visited_dated dated
  have tree' := poll.tree.trans tree
  obtain ⟨rfl,last⟩ := commits_next_due_time dated_m' instant' (tree' ▸ resolved) asked
  refine ⟨concat,tree',⟨now,clock⟩,List.getLast?_concat,?_⟩
  rw [concat,awaited_map] at last
  · exact last
  · exact fun f => Fact.visited_blind (p := fun f => (f.listed scope_ids,f.t_valid,f.t_invalid)) (fun _ _ => rfl) _ f

theorem Consumer.left (consumer : Consumer ctx rows scope e visits hint e') (dated : ∀ f ∈ e.storage.facts.rows, f.Dated)
    (resolved : resume_scope_ids e.scope_tree scope = .ok scope_ids) (instants : ∀ v ∈ visits, v.Dated) : Left scope_ids visits hint e e' := by
  induction consumer with
  | start polled asked =>
    have instant := instants _ List.mem_cons_self
    have fresh : e.storage.facts.rows = e.storage.facts.rows.map (Fact.visited scope_ids []) := (List.map_id _).symm
    exact Left.visit dated resolved instant.1 instant.2.1 fresh rfl polled asked
  | wake before polled asked ih =>
    have left := ih fun v member => instants v (List.mem_append_left _ member)
    have instant := instants _ List.mem_concat_self
    exact Left.visit dated resolved instant.1 instant.2.1 left.rows left.tree polled asked

/-- Between the clock of a visit and every later poll nothing becomes due, and each poll but the
    first is at the valid time of a fact. -/
theorem Consumer.spaced (consumer : Consumer ctx rows scope e visits hint e') (dated : ∀ f ∈ e.storage.facts.rows, f.Dated)
    (resolved : resume_scope_ids e.scope_tree scope = .ok scope_ids) (instants : ∀ v ∈ visits, v.Dated) :
    visits.Pairwise (fun v v' => v.clock < v'.now) ∧ ∀ v ∈ visits.tail, some v.now ∈ e.storage.facts.rows.map Fact.t_valid := by
  induction consumer with
  | start => exact ⟨List.pairwise_singleton _ _,fun v none_left => by cases none_left⟩
  | wake before polled asked ih =>
    rename_i visits now clock _ _
    have earlier : ∀ v ∈ visits, v.Dated := fun v member => instants v (List.mem_append_left _ member)
    obtain ⟨spaced,valid⟩ := ih earlier
    obtain ⟨last,final,_,least⟩ := (before.left dated resolved earlier).hinted
    obtain ⟨front,rfl⟩ := List.getLast?_eq_some_iff.mp final
    obtain ⟨⟨f,row,_,set,after,_⟩,_⟩ := least now rfl
    refine ⟨List.pairwise_append.mpr ⟨spaced,List.pairwise_singleton _ _,fun v member v' here => ?_⟩,fun v member => ?_⟩
    · rw [List.mem_singleton.mp here]
      rcases List.mem_append.mp member with old | new
      · have between := (List.pairwise_append.mp spaced).2.2 v old last List.mem_cons_self
        exact between.trans ((earlier last List.mem_concat_self).2.2.trans_lt after)
      · rw [List.mem_singleton.mp new]
        exact after
    · rw [List.tail_append_of_ne_nil (by simp)] at member
      rcases List.mem_append.mp member with old | new
      · exact valid v old
      · rw [List.mem_singleton.mp new]
        exact List.mem_map.mpr ⟨f,row,set⟩

/-- The hint is no later than a time that the last visit awaits. -/
theorem Left.hint_le (left : Left scope_ids visits hint e e') {f : Fact} {tv : DateTime} (row : f ∈ e.storage.facts.rows)
    (listed : f.listed scope_ids = true) (set : f.t_valid = some tv) (lasting : ∀ ti ∈ f.t_invalid, tv < ti)
    (later : ∀ v ∈ visits.getLast?, v.clock < tv) : ∃ h ∈ hint, h ≤ tv := by
  obtain ⟨v,final,empty,least⟩ := left.hinted
  have awaited : tv ∈ Awaited scope_ids v.clock e.storage.facts.rows :=
    ⟨f,row,listed,set,later v final,fun ti ends => (later v final).trans (lasting ti ends)⟩
  cases hint with
  | none => exact absurd awaited (empty rfl ▸ Set.notMem_empty tv)
  | some h => exact ⟨h,rfl,(least h rfl).2 awaited⟩

/-- A time ahead of the first poll is that of a poll, or the hint is no later, unless it passes
    between a poll and the clock after it. -/
theorem Consumer.reaches (consumer : Consumer ctx rows scope e visits hint e') (dated : ∀ f ∈ e.storage.facts.rows, f.Dated)
    (resolved : resume_scope_ids e.scope_tree scope = .ok scope_ids) (instants : ∀ v ∈ visits, v.Dated) {f : Fact} {tv : DateTime}
    (row : f ∈ e.storage.facts.rows) (listed : f.listed scope_ids = true) (set : f.t_valid = some tv) (lasting : ∀ ti ∈ f.t_invalid, tv < ti)
    (ahead : ∀ v ∈ visits.head?, v.now < tv) (seen : ∀ v ∈ visits, ¬ (v.now < tv ∧ tv ≤ v.clock)) :
    tv ∈ visits.map Visit.now ∨ ∃ h ∈ hint, h ≤ tv := by
  have left := consumer.left dated resolved instants
  induction consumer with
  | start polled asked =>
    refine .inr (left.hint_le row listed set lasting fun v final => ?_)
    cases final
    exact not_le.mp fun passed => seen _ List.mem_cons_self ⟨ahead _ rfl,passed⟩
  | wake before polled asked ih =>
    rename_i visits now clock _ _
    have earlier : ∀ v ∈ visits, v.Dated := fun v member => instants v (List.mem_append_left _ member)
    have left' := before.left dated resolved earlier
    obtain ⟨last,final,_⟩ := left'.hinted
    have started : (visits ++ [(⟨now,clock⟩ : Visit)]).head? = visits.head? := by
      rw [List.head?_append_of_ne_nil _ (List.ne_nil_of_mem (List.mem_of_getLast? final))]
    rcases ih earlier (started ▸ ahead) (fun v member => seen v (List.mem_append_left _ member)) left' with reached | ⟨_,told,early⟩
    · exact .inl (by rw [List.map_append]; exact List.mem_append_left _ reached)
    · cases told
      rcases early.eq_or_lt with rfl | still
      · exact .inl (by rw [List.map_append]; exact List.mem_append_right _ List.mem_cons_self)
      · refine .inr (left.hint_le row listed set lasting fun v final => ?_)
        rw [List.getLast?_concat] at final
        cases final
        exact not_le.mp fun passed => seen _ List.mem_concat_self ⟨still,passed⟩

/-- Later polls have later times. -/
theorem increasing_of_spaced (spaced : visits.Pairwise fun v v' => v.clock < v'.now) (instants : ∀ v ∈ visits, v.Dated) :
    visits.Pairwise fun v v' => v.now < v'.now :=
  spaced.imp_of_mem fun {v _} member _ between => (instants v member).2.2.trans_lt between

/-- Each poll but the first takes the valid time of another fact. -/
theorem Consumer.few (consumer : Consumer ctx rows scope e visits hint e') (dated : ∀ f ∈ e.storage.facts.rows, f.Dated)
    (resolved : resume_scope_ids e.scope_tree scope = .ok scope_ids) (instants : ∀ v ∈ visits, v.Dated) :
    visits.length ≤ e.storage.facts.rows.length + 1 := by
  obtain ⟨spaced,valid⟩ := consumer.spaced dated resolved instants
  have distinct : (visits.tail.map fun v => some v.now).Nodup :=
    List.pairwise_map.mpr ((increasing_of_spaced spaced instants).tail.imp fun between same => between.ne (Option.some.inj same))
  have part : (visits.tail.map fun v => some v.now) ⊆ e.storage.facts.rows.map Fact.t_valid := by
    intro time member
    obtain ⟨v,later,rfl⟩ := List.mem_map.mp member
    exact valid v later
  have short := (distinct.subperm part).length_le
  rw [List.length_map,List.length_map,List.length_tail] at short
  omega

/-- The stamp in the store is the time of the first poll that finds the fact due. -/
theorem Left.stamped_iff (left : Left scope_ids visits hint e e') {f : Fact} {tv : DateTime} (row : f ∈ e.storage.facts.rows)
    (listed : f.listed scope_ids = true) (waiting : f.surfaced_at = none) :
    (∃ g ∈ e'.storage.facts.rows, g.id = f.id ∧ g.surfaced_at = some tv) ↔
      (visits.find? fun v => f.is_temporally_due v.now).map Visit.now = some tv := by
  rw [← Fact.visited_surfaced_at visits listed waiting,left.rows]
  have same : ∀ g : Fact, (g.visited scope_ids visits).id = g.id := fun g => Fact.visited_blind (p := Fact.id) (fun _ _ => rfl) visits g
  constructor
  · rintro ⟨_,member,named,stamped⟩
    obtain ⟨g,row',rfl⟩ := List.mem_map.mp member
    obtain rfl : g = f := e.storage.facts.key_unique row' row ((same g).symm.trans named)
    exact stamped
  · exact fun stamped => ⟨_,List.mem_map_of_mem row,same f,stamped⟩

/-- The first poll that finds a fact due is at its valid time if any is. -/
theorem first_due_iff (increasing : visits.Pairwise fun v v' => v.now < v'.now) {f : Fact} {tv : DateTime} (set : f.t_valid = some tv)
    (lasting : ∀ ti ∈ f.t_invalid, tv < ti) :
    (visits.find? fun v => f.is_temporally_due v.now).map Visit.now = some tv ↔ tv ∈ visits.map Visit.now := by
  constructor
  · intro found
    obtain ⟨v,first,rfl⟩ := Option.map_eq_some_iff.mp found
    exact List.mem_map_of_mem (List.mem_of_find?_eq_some first)
  · intro reached
    obtain ⟨v,member,rfl⟩ := List.mem_map.mp reached
    have due : f.is_temporally_due v.now = true := is_temporally_due_iff.mpr ⟨⟨_,set,le_rfl⟩,lasting⟩
    obtain ⟨front,back,split⟩ := List.append_of_mem member
    rw [split,List.find?_append,List.find?_cons,due]
    have none_before : front.find? (fun v => f.is_temporally_due v.now) = none := by
      refine List.find?_eq_none.mpr fun v' before now_due => ?_
      obtain ⟨⟨_,set',begun⟩,_⟩ := is_temporally_due_iff.mp now_due
      cases set.symm.trans set'
      rw [split] at increasing
      exact absurd ((List.pairwise_append.mp increasing).2.2 v' before v List.mem_cons_self) (not_lt.mpr begun)
    rw [none_before]
    rfl

/-- The time of a poll lies in no gap between another poll and the clock after it. -/
theorem not_between (spaced : visits.Pairwise fun v v' => v.clock < v'.now) (instants : ∀ v ∈ visits, v.Dated) {tv : DateTime}
    (reached : tv ∈ visits.map Visit.now) : ∀ v ∈ visits, ¬ (v.now < tv ∧ tv ≤ v.clock) := by
  intro v member between
  obtain ⟨v',member',rfl⟩ := List.mem_map.mp reached
  obtain ⟨front,back,rfl⟩ := List.append_of_mem member'
  have apart := List.pairwise_append.mp spaced
  rcases List.mem_append.mp member with before | here
  · exact absurd (apart.2.2 v before v' List.mem_cons_self) (not_lt.mpr between.2)
  · rcases List.mem_cons.mp here with rfl | after
    · exact lt_irrefl _ between.1
    · have late := (List.pairwise_cons.mp apart.2.1).1 v after
      exact absurd (((instants v' member').2.2.trans_lt late).trans between.1) (lt_irrefl _)

/-- What a consumer that keeps to the hints does for the facts that lie ahead. After as many
    polls as there are facts, and one, no hint is left. A fact that will be valid is surfaced at
    its valid time exactly if that time does not fall between a poll and the clock that the
    following call of `next_due_time` reads. -/
theorem surfaced_at_valid_time_iff (consumer : Consumer ctx rows scope e visits hint e') (dated : ∀ f ∈ e.storage.facts.rows, f.Dated)
    (resolved : resume_scope_ids e.scope_tree scope = .ok scope_ids) (instants : ∀ v ∈ visits, v.Dated) :
    visits.length ≤ e.storage.facts.rows.length + 1 ∧
    ∀ f ∈ e.storage.facts.rows, f.listed scope_ids = true → f.surfaced_at = none → ∀ tv, f.t_valid = some tv →
      (∀ ti ∈ f.t_invalid, tv < ti) → (∀ v ∈ visits.head?, v.now < tv) → (∀ h ∈ hint, tv < h) →
      ((∃ g ∈ e'.storage.facts.rows, g.id = f.id ∧ g.surfaced_at = some tv) ↔ ∀ v ∈ visits, ¬ (v.now < tv ∧ tv ≤ v.clock)) := by
  obtain ⟨spaced,_⟩ := consumer.spaced dated resolved instants
  refine ⟨consumer.few dated resolved instants,fun f row listed waiting tv set lasting ahead beyond => ?_⟩
  rw [(consumer.left dated resolved instants).stamped_iff row listed waiting,first_due_iff (increasing_of_spaced spaced instants) set lasting]
  refine ⟨not_between spaced instants,fun seen => ?_⟩
  rcases consumer.reaches dated resolved instants row listed set lasting ahead seen with reached | ⟨h,told,early⟩
  · exact reached
  · exact absurd (beyond h told) (not_lt.mpr early)

end consumer

namespace Sample

def comingYear : DateTime := { moment with year := 2027 }

/-- A fact that will be valid next year, a poll before and a poll then. -/
def scheduled (test : Engine → Engine → Bool) : Bool :=
  Ends (port (FactStore.insert backend { newFact "d" with t_valid := some comingYear })) engine fun _ e =>
    Ends (list_due ctx (Shuffle.keep _) moment none) e fun _ m => Ends (next_due_time moment none) m fun hint m =>
      decide (hint = some comingYear) && Ends (list_due ctx (Shuffle.keep _) comingYear none) m fun _ m =>
        Ends (next_due_time comingYear none) m fun hint e' => decide (hint = none) && test e e'

end Sample

theorem surfaced_at_valid_time_sample : ∃ e e', Consumer Sample.ctx (Shuffle.keep _) none e
    [⟨Sample.moment,Sample.moment⟩,⟨Sample.comingYear,Sample.comingYear⟩] none e' ∧
      ∃ f ∈ e.storage.facts.rows, f.surfaced_at = none ∧ ∃ g ∈ e'.storage.facts.rows, g.id = f.id ∧ g.surfaced_at = some Sample.comingYear := by
  have ran : Sample.scheduled (fun e _ => decide (∀ f ∈ e.storage.facts.rows, f.Dated) &&
      decide (∃ f ∈ e.storage.facts.rows, f.listed [ScopeTree.ROOT_ID] = true ∧ f.surfaced_at = none ∧ f.t_valid = some Sample.comingYear ∧
        f.t_invalid = none)) = true := by
    decide +kernel
  obtain ⟨_,e,_,ran⟩ := commits_of_ends ran
  obtain ⟨_,m,polled,ran⟩ := commits_of_ends ran
  obtain ⟨hint,m',asked,ran⟩ := commits_of_ends ran
  rw [Bool.and_eq_true,decide_eq_true_eq] at ran
  obtain ⟨rfl,ran⟩ := ran
  obtain ⟨_,n,polled',ran⟩ := commits_of_ends ran
  obtain ⟨hint,e',asked',ran⟩ := commits_of_ends ran
  simp only [Bool.and_eq_true,decide_eq_true_eq] at ran
  obtain ⟨rfl,dated,f,row,listed,waiting,set,forever⟩ := ran
  have consumer := (Consumer.start polled asked).wake polled' asked'
  refine ⟨e,e',consumer,f,row,waiting,?_⟩
  have exact_time := (surfaced_at_valid_time_iff consumer dated rfl (by decide)).2 f row listed waiting Sample.comingYear set
    (by rw [forever]; exact fun ti none_set => by cases none_set) (by decide) (fun h none_left => by cases none_left)
  exact exact_time.mpr (by decide)

end MemoryEngine
