import MemoryEngine.Resume

/-! What a resumed session returns: the rows that the four queries find, with the due
ones among them stamped, in the response as in the store. -/

namespace MemoryEngine
open Time KeyedTable Transaction Ranking

namespace FactStore

/-- The rows that the query for pinned facts finds. -/
def pinnedRows (rows : Shuffle Fact) (scope_ids : List Int) (limit : Nat) (t : Tables) : List Fact :=
  (descending Fact.importance_score ((rows.order t.facts.rows).filter fun f =>
    f.t_expired.isNone && f.is_pinned && inScopes scope_ids f)).take (limit_i64 limit)

def importantRows (rows : Shuffle Fact) (scope_ids : List Int) (min_score : F64) (limit : Nat) (exclude : List FactId) (t : Tables) :
    List Fact :=
  (descending Fact.importance_score ((rows.order t.facts.rows).filter fun f =>
    f.t_expired.isNone && min_score.le (.num f.importance_score) && !exclude.contains f.id && inScopes scope_ids f)).take (limit_i64 limit)

def dueRows (rows : Shuffle Fact) (now : DateTime) (scope_ids : List Int) (exclude : List FactId) (limit : Nat) (t : Tables) :
    List Fact :=
  (descending (fun f => OrderDual.toDual (validText f)) ((rows.order t.facts.rows).filter fun f =>
    f.t_expired.isNone && dueByText now f && inScopes scope_ids f && !exclude.contains f.id)).take (limit_i64 limit)

def recentRows (rows : Shuffle Fact) (scope_ids : List Int) (limit : Nat) (exclude_ids : List FactId) (t : Tables) : List Fact :=
  (descending (fun f => f.t_created.to_rfc3339) ((rows.order t.facts.rows).filter fun f =>
    f.t_expired.isNone && scope_ids.contains f.scope_id && !exclude_ids.contains f.id)).take (limit_i64 limit)

end FactStore

/-- The rows of the four tiers. -/
def ResumeScans.rows (scans : ResumeScans) (config : ResumeConfig) (now : DateTime) (scope_ids : List Int) (t : Tables) : ResumeContext :=
  let pinned := FactStore.pinnedRows scans.pinned [] config.pinned_cap t
  let high_importance := FactStore.importantRows scans.high_importance scope_ids config.high_importance_min config.high_importance_cap
    (pinned.map Fact.id) t
  let due := FactStore.dueRows scans.due now scope_ids (pinned.map Fact.id ++ high_importance.map Fact.id) config.due_cap t
  let recent := FactStore.recentRows scans.recent scope_ids config.recent_cap
    (pinned.map Fact.id ++ high_importance.map Fact.id ++ due.map Fact.id) t
  ⟨pinned,high_importance,due,recent⟩

/-- The fact with the stamp that a due one receives. -/
def Fact.surface (now : DateTime) (f : Fact) : Fact :=
  if f.surfaced_at.isNone && f.is_temporally_due now then { f with surfaced_at := some now } else f

/-- The fact after the shown ones have received their stamps. -/
def Fact.surface_shown (now : DateTime) (shown : List FactId) (f : Fact) : Fact := if f.id ∈ shown then f.surface now else f

theorem Fact.surface_shown_of_mem {now : DateTime} {shown : List FactId} {f : Fact} (listed : f.id ∈ shown) :
    f.surface_shown now shown = f.surface now := if_pos listed

theorem Fact.surface_shown_of_not_mem {now : DateTime} {shown : List FactId} {f : Fact} (absent : f.id ∉ shown) :
    f.surface_shown now shown = f := if_neg absent

/-- The due facts among the shown ones are stamped, and nothing else changes. -/
structure Stamped (now : DateTime) (shown : List FactId) (s t : Tables) : Prop where
  rows : t.facts.rows = s.facts.rows.map (Fact.surface_shown now shown)
  rest : t = { s with facts := t.facts }

namespace FactStore
variable {self : SqliteBackend} {s t : Db} {now : DateTime}

/-- Stamping gives every requested row a stamp; the stamps are those the rows then have. -/
theorem commits_stamp_surfaced {fact_ids : List FactId} {stamped : Except MemoryError (List (FactId × DateTime))} (requested : fact_ids ≠ []) :
    Commits (stamp_surfaced fact_ids now) s stamped t ↔
      t.toTables = { s.toTables with
        facts := s.facts.update (fun f => fact_ids.contains f.id && f.surfaced_at.isNone) (fun f => { f with surfaced_at := some now }) } ∧
      stamped = readRows (fun row : FactId × DateTime => row.2.Readable) (stamps fact_ids t.toTables) := by
  unfold stamp_surfaced
  rw [if_neg requested]
  simp only [commits_bind,commits_execute,commits_query,commits_pure]
  constructor
  · rintro ⟨_,m,written,_,_,⟨rfl,rfl⟩,rfl,rfl⟩
    exact ⟨written,rfl⟩
  · rintro ⟨written,rfl⟩
    exact ⟨(),t,written,_,t,⟨rfl,rfl⟩,rfl,rfl⟩

end FactStore

/-- What does not read the stamp does not see it. -/
theorem Fact.surface_blind {γ : Type} {p : Fact → γ} (blind : ∀ f ts, p { f with surfaced_at := ts } = p f) (now : DateTime) (f : Fact) :
    p (f.surface now) = p f := by
  unfold surface
  split
  · exact blind f (some now)
  · rfl

@[simp] theorem Fact.surface_id (now : DateTime) (f : Fact) : (f.surface now).id = f.id :=
  Fact.surface_blind (p := Fact.id) (fun _ _ => rfl) now f

section stamping
variable {now : DateTime} {found : List Fact} {s t : Tables}

/-- The ids that are stamped: those of the due facts without a stamp. -/
def unsurfaced (now : DateTime) (found : List Fact) : List FactId :=
  (found.filter fun f => f.surfaced_at.isNone && f.is_temporally_due now).map Fact.id

variable (now) in
theorem mem_unsurfaced (rows : ∀ f ∈ found, f ∈ s.facts.rows) {f : Fact} (row : f ∈ s.facts.rows) :
    f.id ∈ unsurfaced now found ↔ f.id ∈ found.map Fact.id ∧ f.surfaced_at = none ∧ f.is_temporally_due now = true := by
  simp only [unsurfaced,List.mem_map,List.mem_filter,Bool.and_eq_true,Option.isNone_iff_eq_none]
  constructor
  · rintro ⟨g,⟨listed,waiting⟩,same⟩
    obtain rfl : g = f := s.facts.key_unique (rows g listed) row same
    exact ⟨⟨g,listed,rfl⟩,waiting⟩
  · rintro ⟨⟨g,listed,same⟩,waiting⟩
    obtain rfl : g = f := s.facts.key_unique (rows g listed) row same
    exact ⟨g,⟨listed,waiting⟩,rfl⟩

/-- Stamping the waiting ids stamps the due facts among those found. -/
theorem stamped_of_update (rows : ∀ f ∈ found, f ∈ s.facts.rows)
    (written : t = { s with
      facts := s.facts.update (fun f => (unsurfaced now found).contains f.id && f.surfaced_at.isNone)
        (fun f => { f with surfaced_at := some now }) }) : Stamped now (found.map Fact.id) s t := by
  subst written
  refine ⟨?_,rfl⟩
  rw [Table.update_rows]
  refine List.map_congr_left fun f row => ?_
  have waiting := mem_unsurfaced now rows row
  by_cases shown : f.id ∈ found.map Fact.id
  · rw [Fact.surface_shown_of_mem shown,Fact.surface]
    by_cases due : f.surfaced_at = none ∧ f.is_temporally_due now = true
    · have asked := waiting.mpr ⟨shown,due⟩
      simp [asked,due.1,due.2]
    · have passed : f.id ∉ unsurfaced now found := fun asked => due (waiting.mp asked).2
      rw [if_neg (by simp [passed]),if_neg (by simpa using due)]
  · have passed : f.id ∉ unsurfaced now found := fun asked => shown (waiting.mp asked).1
    rw [Fact.surface_shown_of_not_mem shown,if_neg (by simp [passed])]

theorem mem_stamps {fact_ids : List FactId} {id : FactId} {ts : DateTime} :
    (id,ts) ∈ FactStore.stamps fact_ids t ↔ id ∈ fact_ids ∧ ∃ f ∈ t.facts.rows, f.id = id ∧ f.surfaced_at = some ts := by
  simp only [FactStore.stamps,List.mem_filterMap]
  constructor
  · rintro ⟨f,row,shown⟩
    split at shown
    · rename_i asked
      obtain ⟨ts',set,pair⟩ := Option.map_eq_some_iff.mp shown
      cases pair
      exact ⟨List.contains_iff_mem.mp asked,f,row,rfl,set⟩
    · cases shown
  · rintro ⟨asked,f,row,rfl,set⟩
    refine ⟨f,row,?_⟩
    rw [if_pos (List.contains_iff_mem.mpr asked),set]
    rfl

theorem mem_of_lookup {stamped : List (FactId × DateTime)} {id : FactId} {ts : DateTime} (found : stamped.lookup id = some ts) :
    (id,ts) ∈ stamped := by
  obtain ⟨front,back,split,_⟩ := List.lookup_eq_some_iff.mp found
  rw [split]
  exact List.mem_append_right _ List.mem_cons_self

/-- The response receives the stamps that the store holds. -/
theorem apply_surfaced_stamps_eq (rows : ∀ f ∈ found, f ∈ s.facts.rows) (stamped : Stamped now (found.map Fact.id) s t) {f : Fact}
    (listed : f ∈ found) : apply_surfaced_stamps (FactStore.stamps (unsurfaced now found) t) f = f.surface now := by
  have waiting := mem_unsurfaced now rows (rows f listed)
  have shown : f.id ∈ found.map Fact.id := List.mem_map_of_mem listed
  have row : f.surface now ∈ t.facts.rows := by
    rw [stamped.rows]
    exact List.mem_map.mpr ⟨f,rows f listed,Fact.surface_shown_of_mem shown⟩
  unfold apply_surfaced_stamps
  by_cases due : f.surfaced_at = none ∧ f.is_temporally_due now = true
  · have changed : f.surface now = { f with surfaced_at := some now } := if_pos (by simpa using due)
    have there : (f.id,now) ∈ FactStore.stamps (unsurfaced now found) t :=
      mem_stamps.mpr ⟨waiting.mpr ⟨shown,due⟩,f.surface now,row,Fact.surface_id now f,by rw [changed]⟩
    cases stamp : (FactStore.stamps (unsurfaced now found) t).lookup f.id with
    | none =>
      have missing := List.lookup_eq_none_iff.mp stamp _ there
      simp at missing
    | some ts =>
      obtain ⟨_,g,row',same,set⟩ := mem_stamps.mp (mem_of_lookup stamp)
      have one : g = f.surface now := t.facts.key_unique row' row (same.trans (Fact.surface_id now f).symm)
      rw [one,changed] at set
      cases set
      exact changed.symm
  · have unchanged : f.surface now = f := if_neg (by simpa using due)
    cases stamp : (FactStore.stamps (unsurfaced now found) t).lookup f.id with
    | none => exact unchanged.symm
    | some ts => exact absurd (waiting.mp (mem_stamps.mp (mem_of_lookup stamp)).1).2 due
end stamping

/-- What a scan finds are rows that pass its filter. -/
theorem mem_of_scan {σ : Type} [LinearOrder σ] {key : Fact → σ} {rows : Shuffle Fact} {p : Fact → Bool} {limit : Nat} {t : Tables} {f : Fact}
    (found : f ∈ (descending key ((rows.order t.facts.rows).filter p)).take limit) : f ∈ t.facts.rows ∧ p f = true := by
  obtain ⟨listed,passed⟩ := List.mem_filter.mp (mem_descending.mp (List.mem_of_mem_take found))
  exact ⟨(rows.perm _).mem_iff.mp listed,passed⟩

/-- The end of a resumed session: the due facts it found receive their stamp. -/
theorem commits_surfacing {ctx : MemoryCtx} {now : DateTime} {e e' : Engine} {found response : ResumeContext}
    (rows : ∀ f ∈ found.facts, f ∈ e.storage.facts.rows)
    (surfaced : Commits (if unsurfaced now found.facts = [] then return found else do
      let stamped ← stamp_surfaced_facts ctx (unsurfaced now found.facts) now
      return found.map (apply_surfaced_stamps stamped) : Op ResumeContext) e response e') :
    response = found.map (Fact.surface now) ∧ e' = { e with storage := e'.storage } ∧
      Stamped now (found.facts.map Fact.id) e.storage.toTables e'.storage.toTables := by
  by_cases none_waiting : unsurfaced now found.facts = []
  · rw [if_pos none_waiting] at surfaced
    obtain ⟨rfl,rfl⟩ := commits_pure.mp surfaced
    have calm : ∀ f ∈ response.facts, f.surface now = f := by
      intro f listed
      have passed := List.filter_eq_nil_iff.mp (List.map_eq_nil_iff.mp none_waiting) f listed
      exact if_neg passed
    refine ⟨?_,rfl,?_,rfl⟩
    · conv_lhs => rw [← ResumeContext.map_id response]
      exact ResumeContext.map_congr fun f listed => (calm f listed).symm
    · conv_lhs => rw [← List.map_id e'.storage.facts.rows]
      refine List.map_congr_left fun f row => ?_
      by_cases shown : f.id ∈ response.facts.map Fact.id
      · obtain ⟨g,listed,same⟩ := List.mem_map.mp shown
        obtain rfl : g = f := e'.storage.facts.key_unique (rows g listed) row same
        rw [Fact.surface_shown_of_mem shown,calm g listed]
        rfl
      · rw [Fact.surface_shown_of_not_mem shown]
        rfl
  · rw [if_neg none_waiting] at surfaced
    obtain ⟨stamped,_,stamping,last⟩ := commits_bind.mp surfaced
    obtain ⟨rfl,rfl⟩ := commits_pure.mp last
    obtain ⟨_,engine,gate,writing⟩ := commits_bind.mp stamping
    obtain ⟨_,rfl⟩ := commits_lift.mp gate
    obtain ⟨outcome,_,written,lifted⟩ := commits_bind.mp writing
    obtain ⟨legible,rfl⟩ := commits_lift.mp lifted
    obtain ⟨db,changed,rfl⟩ := commits_port.mp written
    obtain ⟨contents,read⟩ := (FactStore.commits_stamp_surfaced none_waiting).mp changed
    have done : Stamped now (found.facts.map Fact.id) engine.storage.toTables db.toTables := stamped_of_update rows contents
    rw [read] at legible
    obtain ⟨rfl,_⟩ := readRows_ok.mp legible
    exact ⟨ResumeContext.map_congr fun f listed => apply_surfaced_stamps_eq rows done listed,rfl,done⟩

variable {ctx : MemoryCtx} {scans : ResumeScans} {config : ResumeConfig} {clock : DateTime} {e e' : Engine} {response : ResumeContext}

/-- A session that resumes reads the four tiers, all of them legible, and stamps the
    due facts among them in the response and in the store. -/
theorem commits_resume_context (resumed : Commits (resume_context ctx scans config clock) e response e') :
    config.validate ctx.backend = .ok () ∧ ∃ scope_ids, resume_scope_ids e.scope_tree config.scope_path = .ok scope_ids ∧
      ∃ found, found = scans.rows config (config.now.getD clock) scope_ids e.storage.toTables ∧
        (∀ f ∈ found.facts, f ∈ e.storage.facts.rows ∧ f.Readable ctx.backend.embed_dim) ∧
        response = found.map (Fact.surface (config.now.getD clock)) ∧ e' = { e with storage := e'.storage } ∧
        Stamped (config.now.getD clock) (found.facts.map Fact.id) e.storage.toTables e'.storage.toTables := by
  obtain ⟨_,_,open_,validating⟩ := commits_bind.mp resumed
  obtain ⟨_,rfl⟩ := commits_lift.mp open_
  obtain ⟨_,_,validated,looking⟩ := commits_bind.mp validating
  obtain ⟨valid,rfl⟩ := commits_lift.mp validated
  obtain ⟨_,_,current,resolving⟩ := commits_bind.mp looking
  obtain ⟨rfl,rfl⟩ := commits_get.mp current
  obtain ⟨scope_ids,engine,lifted,reading⟩ := commits_bind.mp resolving
  obtain ⟨resolved,rfl⟩ := commits_lift.mp lifted
  obtain ⟨pinned,_,first,behind_pinned⟩ := commits_bind.mp reading
  obtain ⟨_,first_listed,rfl⟩ := commits_port.mp first
  obtain ⟨pinned_eq,pinned_legible,rfl⟩ := commits_readRows.mp first_listed
  obtain ⟨important,_,second,behind_important⟩ := commits_bind.mp behind_pinned
  obtain ⟨_,second_listed,rfl⟩ := commits_port.mp second
  obtain ⟨important_eq,important_legible,rfl⟩ := commits_readRows.mp second_listed
  obtain ⟨due,_,third,behind_due⟩ := commits_bind.mp behind_important
  obtain ⟨_,third_listed,rfl⟩ := commits_port.mp third
  obtain ⟨due_eq,due_legible,rfl⟩ := commits_readRows.mp third_listed
  obtain ⟨recent,_,fourth,stamping⟩ := commits_bind.mp behind_due
  obtain ⟨_,fourth_listed,rfl⟩ := commits_port.mp fourth
  obtain ⟨recent_eq,recent_legible,rfl⟩ := commits_readRows.mp fourth_listed
  have rows : ∀ f ∈ (⟨pinned,important,due,recent⟩ : ResumeContext).facts,
      f ∈ engine.storage.facts.rows ∧ f.Readable ctx.backend.embed_dim := by
    intro f listed
    simp only [ResumeContext.facts,List.mem_append] at listed
    rcases listed with ((listed | listed) | listed) | listed
    · rw [pinned_eq] at listed
      exact ⟨(mem_of_scan listed).1,pinned_legible f listed⟩
    · rw [important_eq] at listed
      exact ⟨(mem_of_scan listed).1,important_legible f listed⟩
    · rw [due_eq] at listed
      exact ⟨(mem_of_scan listed).1,due_legible f listed⟩
    · rw [recent_eq] at listed
      exact ⟨(mem_of_scan listed).1,recent_legible f listed⟩
  obtain ⟨shown,store,stamped⟩ := commits_surfacing (fun f listed => (rows f listed).1) stamping
  refine ⟨valid,scope_ids,resolved,_,?_,rows,shown,store,stamped⟩
  subst pinned_eq important_eq due_eq recent_eq
  rfl
end MemoryEngine
