import MemoryEngine.ResumeTiers

/-! A resumed session as a whole: its tiers are those of the store it leaves, in which
the due facts it shows are stamped and nothing else has changed. -/

namespace MemoryEngine
open Time DateTime KeyedTable Transaction Ranking

section surfacing
variable {now : DateTime} {shown : List FactId} {s t : Tables}

theorem Fact.surface_shown_blind {γ : Type} {p : Fact → γ} (blind : ∀ f ts, p { f with surfaced_at := ts } = p f) (f : Fact) :
    p (f.surface_shown now shown) = p f := by
  unfold surface_shown
  split
  · exact Fact.surface_blind blind now f
  · rfl

theorem Fact.surface_isSome {f : Fact} (due : f.is_temporally_due now = true) : (f.surface now).surfaced_at.isSome := by
  unfold surface
  rw [due,Bool.and_true]
  split
  · rfl
  · rename_i set
    simpa [Option.isSome_iff_ne_none] using set

theorem filter_shown {p : Fact → Bool} (blind : ∀ f ts, p { f with surfaced_at := ts } = p f) (l : List Fact) :
    (l.map (Fact.surface_shown now shown)).filter p = (l.filter p).map (Fact.surface_shown now shown) := by
  rw [List.filter_map]
  exact congrArg (List.map _) (List.filter_congr fun f _ => Fact.surface_shown_blind blind f)

/-- The facts can be told from their ids, so a key that does not read the stamp ranks
    the stamped facts as it ranks the others. -/
theorem top_shown_iff {σ : Type} [LinearOrder σ] {key : Fact → σ} (blind : ∀ f ts, key { f with surfaced_at := ts } = key f) {limit : Nat}
    {all best : List Fact} (rows : ∀ f ∈ all, f ∈ s.facts.rows) (rows' : ∀ f ∈ best, f ∈ s.facts.rows) :
    Top key limit (all.map (Fact.surface_shown now shown)) (best.map (Fact.surface_shown now shown)) ↔ Top key limit all best := by
  have inverse : ∀ f ∈ s.facts.rows, (s.facts.find (f.surface_shown now shown).id).getD (f.surface_shown now shown) = f := by
    intro f row
    have same : (f.surface_shown now shown).id = f.id := Fact.surface_shown_blind (p := Fact.id) (fun _ _ => rfl) f
    have there : s.facts.find f.id = some f := Table.find_eq_some.mpr ⟨row,rfl⟩
    rw [same,there]
    rfl
  exact top_map_iff (fun f => (s.facts.find f.id).getD f) (fun f _ => Fact.surface_shown_blind blind f)
    (fun f member => inverse f (rows f member)) (fun f member => inverse f (rows' f member))

variable {scope_ids : List Int} {exclude : List FactId}

theorem Stamped.activeFacts (stamped : Stamped now shown s t) : t.activeFacts = s.activeFacts.map (Fact.surface_shown now shown) := by
  rw [Tables.activeFacts,stamped.rows]
  exact filter_shown (fun _ _ => rfl) s.facts.rows

theorem Stamped.remaining (stamped : Stamped now shown s t) :
    t.remaining scope_ids exclude = (s.remaining scope_ids exclude).map (Fact.surface_shown now shown) := by
  rw [Tables.remaining,stamped.activeFacts]
  exact filter_shown (fun _ _ => rfl) s.activeFacts

variable {σ : Type} [LinearOrder σ] {key : Fact → σ} {q : Fact → Bool} {limit : Nat} {best : List Fact}

theorem Stamped.top_active_iff (stamped : Stamped now shown s t) (blind : ∀ f ts, key { f with surfaced_at := ts } = key f)
    (blind' : ∀ f ts, q { f with surfaced_at := ts } = q f) (rows : ∀ f ∈ best, f ∈ s.facts.rows) :
    Top key limit (t.activeFacts.filter q) (best.map (Fact.surface_shown now shown)) ↔ Top key limit (s.activeFacts.filter q) best := by
  rw [stamped.activeFacts,filter_shown blind']
  exact top_shown_iff blind (fun f member => (List.mem_filter.mp (List.mem_filter.mp member).1).1) rows

theorem Stamped.top_remaining_iff (stamped : Stamped now shown s t) (blind : ∀ f ts, key { f with surfaced_at := ts } = key f)
    (blind' : ∀ f ts, q { f with surfaced_at := ts } = q f) (rows : ∀ f ∈ best, f ∈ s.facts.rows) :
    Top key limit ((t.remaining scope_ids exclude).filter q) (best.map (Fact.surface_shown now shown)) ↔
      Top key limit ((s.remaining scope_ids exclude).filter q) best := by
  rw [stamped.remaining,filter_shown blind']
  exact top_shown_iff blind (fun f member => mem_facts_of_remaining (List.mem_filter.mp member).1) rows

end surfacing

section tiers
variable {now : DateTime} {s t : Tables} {config : ResumeConfig} {scope_ids : List Int} {found : ResumeContext}

/-- In the response the facts found are as the store then has them. -/
theorem map_surface_eq : found.map (Fact.surface now) = found.map (Fact.surface_shown now (found.facts.map Fact.id)) :=
  ResumeContext.map_congr fun _ listed => (Fact.surface_shown_of_mem (List.mem_map_of_mem listed)).symm

/-- The stamping leaves the tiers as they are. -/
theorem tiers_stamped_iff (rows : ∀ f ∈ found.facts, f ∈ s.facts.rows) (stamped : Stamped now (found.facts.map Fact.id) s t) :
    Tiers config now scope_ids t (found.map (Fact.surface now)) ↔ Tiers config now scope_ids s found := by
  have ids : ∀ l : List Fact, (l.map (Fact.surface_shown now (found.facts.map Fact.id))).map Fact.id = l.map Fact.id := fun l => by
    rw [List.map_map]
    exact List.map_congr_left fun f _ => Fact.surface_shown_blind (fun _ _ => rfl) f
  simp only [ResumeContext.facts,List.mem_append] at rows
  rw [map_surface_eq]
  constructor
  · rintro ⟨distinct,pinned,important,due,recent⟩
    rw [ResumeContext.map_facts,ids] at distinct
    simp only [ResumeContext.map,ids] at pinned important due recent
    exact ⟨distinct,(stamped.top_active_iff (fun _ _ => rfl) (fun _ _ => rfl) fun f listed => rows f (.inl (.inl (.inl listed)))).mp pinned,
      (stamped.top_remaining_iff (fun _ _ => rfl) (fun _ _ => rfl) fun f listed => rows f (.inl (.inl (.inr listed)))).mp important,
      (stamped.top_remaining_iff (fun _ _ => rfl) (fun _ _ => rfl) fun f listed => rows f (.inl (.inr listed))).mp due,
      (stamped.top_active_iff (fun _ _ => rfl) (fun _ _ => rfl) fun f listed => rows f (.inr listed)).mp recent⟩
  · rintro ⟨distinct,pinned,important,due,recent⟩
    refine ⟨by rw [ResumeContext.map_facts,ids]; exact distinct,?_,?_,?_,?_⟩ <;> simp only [ResumeContext.map,ids]
    · exact (stamped.top_active_iff (fun _ _ => rfl) (fun _ _ => rfl) fun f listed => rows f (.inl (.inl (.inl listed)))).mpr pinned
    · exact (stamped.top_remaining_iff (fun _ _ => rfl) (fun _ _ => rfl) fun f listed => rows f (.inl (.inl (.inr listed)))).mpr important
    · exact (stamped.top_remaining_iff (fun _ _ => rfl) (fun _ _ => rfl) fun f listed => rows f (.inl (.inr listed))).mpr due
    · exact (stamped.top_active_iff (fun _ _ => rfl) (fun _ _ => rfl) fun f listed => rows f (.inr listed)).mpr recent

end tiers
/-- What a resumed session leaves: four tiers that are rows of the store, the due
    facts in them stamped, and no change beside these stamps. -/
structure Resumes (config : ResumeConfig) (now : DateTime) (scope_ids : List Int) (s t : Tables) (r : ResumeContext) : Prop where
  tiers : Tiers config now scope_ids t r
  held : ∀ f ∈ r.facts, f ∈ t.facts.rows
  surfaced : ∀ f ∈ r.facts, f.is_temporally_due now = true → f.surfaced_at.isSome
  stamped : Stamped now (r.facts.map Fact.id) s t

theorem resume_scope_ids_ne_nil {tree : ScopeTree} {scope_path : Option String} {scope_ids : List Int}
    (resolved : resume_scope_ids tree scope_path = .ok scope_ids) : scope_ids ≠ [] := by
  cases scope_path with
  | none =>
    cases resolved
    exact List.cons_ne_nil _ _
  | some path =>
    unfold resume_scope_ids at resolved
    dsimp only at resolved
    split at resolved
    · rename_i id _
      cases resolved
      exact List.ne_nil_of_mem (ScopeTree.mem_ancestors tree id)
    · cases resolved

/-- A session resumes as it should exactly when the texts of the times put no fact out
    of its place. -/
theorem resumes_iff_texts_agree {ctx : MemoryCtx} {scans : ResumeScans} {config : ResumeConfig} {clock : DateTime} {e e' : Engine}
    {response : ResumeContext} {scope_ids : List Int} (resumed : Commits (resume_context ctx scans config clock) e response e')
    (resolved : resume_scope_ids e.scope_tree config.scope_path = .ok scope_ids) (small : e.storage.facts.rows.length ≤ I64_MAX)
    (regular : ∀ f ∈ e.storage.facts.rows, f.Regular) (leaps : Leaps (config.now.getD clock)) :
    Resumes config (config.now.getD clock) scope_ids e.storage.toTables e'.storage.toTables response ↔
      scans.TextsAgree config (config.now.getD clock) scope_ids e.storage.toTables := by
  obtain ⟨valid,_,found_scopes,found,listed,rows,rfl,_,stamped⟩ := commits_resume_context resumed
  cases resolved.symm.trans found_scopes
  have inside : ∀ f ∈ found.facts, f ∈ e.storage.facts.rows := fun f member => (rows f member).1
  have legible : ∀ f ∈ (scans.rows config (config.now.getD clock) scope_ids e.storage.toTables).facts, f.Readable ctx.backend.embed_dim :=
    fun f member => (rows f (listed ▸ member)).2
  have tiers := tiers_rows_iff small (resume_scope_ids_ne_nil resolved) valid regular leaps legible
  rw [← listed] at tiers
  have ids : (found.map (Fact.surface (config.now.getD clock))).facts.map Fact.id = found.facts.map Fact.id := by
    rw [ResumeContext.map_facts,List.map_map]
    exact List.map_congr_left fun f _ => Fact.surface_id _ f
  constructor
  · exact fun resumes => tiers.mp ((tiers_stamped_iff inside stamped).mp resumes.tiers)
  · refine fun agree => ⟨(tiers_stamped_iff inside stamped).mpr (tiers.mpr agree),fun f shown => ?_,fun f shown due => ?_,?_⟩
    · rw [map_surface_eq,ResumeContext.map_facts] at shown
      obtain ⟨g,member,rfl⟩ := List.mem_map.mp shown
      rw [stamped.rows]
      exact List.mem_map_of_mem (inside g member)
    · rw [ResumeContext.map_facts] at shown
      obtain ⟨g,member,rfl⟩ := List.mem_map.mp shown
      rw [Fact.surface_blind (p := Fact.is_temporally_due (config.now.getD clock)) (fun _ _ => rfl)] at due
      exact Fact.surface_isSome due
    · rw [ids]
      exact stamped

namespace Sample

/-- The scans meet the rows in the order of their ids. -/
def scans : ResumeScans := ⟨Shuffle.keep _,Shuffle.keep _,Shuffle.keep _,Shuffle.keep _⟩

/-- A year before the moment, and the first instant whose year has five digits. -/
def pastYear : DateTime := { moment with year := 2025 }
def endless : DateTime := { moment with year := 10000 }

/-- A store with a fourth fact, valid since last year and up to an instant. -/
def awaiting (t_invalid : Option DateTime) (test : Engine → Bool) : Bool :=
  Ends (port (FactStore.insert backend { newFact "d" with t_created := pastYear, t_valid := some pastYear, t_invalid := t_invalid })) engine
    fun _ e => test e

end Sample

theorem resumes_sample : ∃ e e' response, Commits (resume_context Sample.ctx Sample.scans {} Sample.moment) e response e' ∧
    (Resumes {} Sample.moment [ScopeTree.ROOT_ID] e.storage.toTables e'.storage.toTables response ↔
      Sample.scans.TextsAgree {} Sample.moment [ScopeTree.ROOT_ID] e.storage.toTables) := by
  have ran : Sample.awaiting none (fun e => decide (e.storage.facts.rows.length ≤ I64_MAX) &&
      decide (∀ f ∈ e.storage.facts.rows, f.Regular) &&
      Ends (resume_context Sample.ctx Sample.scans {} Sample.moment) e fun response _ => response.due.length == 1) = true := by
    decide +kernel
  obtain ⟨_,e,_,ran⟩ := commits_of_ends ran
  simp only [Bool.and_eq_true,decide_eq_true_eq] at ran
  obtain ⟨⟨small,regular⟩,ran⟩ := ran
  obtain ⟨response,e',resumed,_⟩ := commits_of_ends ran
  exact ⟨e,e',response,resumed,resumes_iff_texts_agree resumed rfl small regular (by decide)⟩

/-- A fact that is valid up to a year of five digits is due and in no tier. -/
theorem due_fact_missing : ¬ ∀ (ctx : MemoryCtx) (scans : ResumeScans) (config : ResumeConfig) (clock : DateTime) (e e' : Engine)
    (response : ResumeContext) (scope_ids : List Int), Commits (resume_context ctx scans config clock) e response e' →
      resume_scope_ids e.scope_tree config.scope_path = .ok scope_ids → (∀ f ∈ e.storage.facts.rows, f.Regular) →
        Leaps (config.now.getD clock) →
          Resumes config (config.now.getD clock) scope_ids e.storage.toTables e'.storage.toTables response := by
  intro claim
  have ran : Sample.awaiting (some Sample.endless) (fun e => decide (∀ f ∈ e.storage.facts.rows, f.Regular) &&
      Ends (resume_context Sample.ctx Sample.scans { recent_cap := 1 } Sample.moment) e fun response e' =>
        response.due.isEmpty && decide (0 < ((e'.storage.toTables.remaining [ScopeTree.ROOT_ID]
          (response.pinned.map Fact.id ++ response.high_importance.map Fact.id)).filter (Fact.is_temporally_due Sample.moment)).length)) =
        true := by
    decide +kernel
  obtain ⟨_,e,_,ran⟩ := commits_of_ends ran
  obtain ⟨regular,ran⟩ := Bool.and_eq_true_iff.mp ran
  obtain ⟨response,e',resumed,ran⟩ := commits_of_ends ran
  obtain ⟨none_shown,some_due⟩ := Bool.and_eq_true_iff.mp ran
  have shown := (claim _ _ _ _ _ _ _ _ resumed rfl (of_decide_eq_true regular) (by decide)).tiers.due.holds.length_eq
  rw [List.isEmpty_iff.mp none_shown,List.length_nil] at shown
  exact absurd shown (Nat.ne_of_lt (Nat.lt_min.mpr ⟨by decide,of_decide_eq_true some_due⟩))

end MemoryEngine
