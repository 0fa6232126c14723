import MemoryEngine.BootstrapRedaction
import MemoryEngine.SessionImports

/-! Sessions are imported once. Whatever order the calls take their steps in, a session gets
at most one marker, and the facts are what the committed batches make of them. -/

namespace MemoryEngine.Importer
open Time KeyedTable Transaction Traces Traced Bootstrap

/-- The markers of a session. -/
def markers (session_id : String) (t : Tables) : Nat := t.events.rows.countP (bootstrap_marker_filter session_id).admits

theorem admits_marker {session_id : String} {e : Event} :
    (bootstrap_marker_filter session_id).admits e = (e.session_id == some session_id && e.source == "bootstrap") := by
  simp [EventFilter.admits,bootstrap_marker_filter]

/-- The marker of a call is the anchor of its own session. -/
theorem ImportCall.Prepares.marker {call : ImportCall} {session : PreparedSession} (prepares : call.Prepares session) :
    session.marker.session_id = some call.parsed.session_id ∧ session.marker.source = "bootstrap" := by
  obtain ⟨scope_id,log,ran⟩ := prepares
  obtain ⟨_,_,_,ran⟩ := ran_bind ran
  obtain ⟨_,_,_,ran⟩ := ran_bind ran
  cases ran
  exact ⟨rfl,rfl⟩

section runs
variable {ι : Type} {calls : ι → ImportCall}

/-- The event that a commit left. -/
def Commit.row (calls : ι → ImportCall) (k : Commit ι) : Event := EventStore.newRow (calls k.call).ctx.backend k.session.marker k.marker_id

/-- The batch of a commit. -/
def Commit.apply (calls : ι → ImportCall) (facts : Table Fact) (k : Commit ι) : Table Fact :=
  storeBatch (calls k.call).ctx.backend k.marker_id facts (k.session.facts.map Prod.fst)

/-- The commits of a run in their order. -/
def commits (entries : List (Entry ι)) : List (Commit ι) := entries.filterMap Entry.commit

/-- A step that changed no table but the scopes. -/
def Entry.ScopesOnly (entry : Entry ι) : Prop := { entry.after.toTables with scopes := entry.before.scopes } = entry.before.toTables

/-- What the calls have done to the store so far. -/
structure Imported (calls : ι → ImportCall) (start : Db) (entries : List (Entry ι)) (w : World ι) : Prop where
  facts : w.storage.facts = (commits entries).foldl (Commit.apply calls) start.facts
  events : w.storage.events.rows = start.events.rows ++ (commits entries).map (Commit.row calls)
  once : ((commits entries).map Commit.call).Nodup
  wrote : ∀ c, c ∈ (commits entries).map Commit.call ↔ (w.phase c).Wrote
  prepared : ∀ k ∈ commits entries, (calls k.call).Prepares k.session
  quiet : ∀ entry ∈ entries, entry.commit = none → entry.ScopesOnly
  own : ∀ entry ∈ entries, ∀ k ∈ entry.commit, k.call = entry.call
  markers : ∀ session_id, markers session_id start.toTables ≤ 1 → Importer.markers session_id w.storage.toTables ≤ 1

/-- What is known of a call by where it is. -/
def Phase.Sound (call : ImportCall) : Phase → Prop
  | prepared session => call.Prepares session
  | ingested session flags => session.facts.length = flags.length
  | _ => True

theorem commits_snoc (entries : List (Entry ι)) (entry : Entry ι) : commits (entries ++ [entry]) = commits entries ++ entry.commit.toList := by
  unfold commits
  rw [List.filterMap_append]
  cases given : entry.commit <;> simp [given]

variable [DecidableEq ι] {start : Db} {entries : List (Entry ι)} {w : World ι}

/-- A step that commits nothing moves one call, which had not committed before or still has. -/
theorem imported_quiet (imported : Imported calls start entries w) {c : ι} {phase : Phase} {db : Db}
    (same : (w.phase c).Wrote ↔ phase.Wrote) (quiet : { db.toTables with scopes := w.storage.scopes } = w.storage.toTables) :
    Imported calls start (entries ++ [⟨c,w.storage,db,none⟩]) (w.moved c phase db) := by
  have facts : { db.toTables with scopes := w.storage.scopes }.facts = w.storage.facts := by rw [quiet]
  have events : { db.toTables with scopes := w.storage.scopes }.events = w.storage.events := by rw [quiet]
  have kept : commits (entries ++ [⟨c,w.storage,db,none⟩]) = commits entries := by
    rw [commits_snoc]
    exact List.append_nil _
  refine ⟨?_,?_,?_,fun c' => ?_,?_,fun entry listed none_ => ?_,fun entry listed k given => ?_,fun session_id single => ?_⟩
  · rw [kept,← imported.facts]
    exact facts
  · rw [kept,← imported.events]
    exact congrArg Table.rows events
  · rw [kept]
    exact imported.once
  · rw [kept,imported.wrote c']
    by_cases here : c' = c
    · rw [here]
      simpa [World.moved] using same
    · simp [World.moved,Function.update_of_ne here]
  · rw [kept]
    exact imported.prepared
  · rcases List.mem_append.mp listed with old | new
    · exact imported.quiet entry old none_
    · rw [List.mem_singleton.mp new]
      exact quiet
  · rcases List.mem_append.mp listed with old | new
    · exact imported.own entry old k given
    · rw [List.mem_singleton.mp new] at given
      cases given
  · have before := imported.markers session_id single
    unfold Importer.markers at before ⊢
    rwa [show (w.moved c phase db).storage.events = w.storage.events from events]

/-- A commit adds its marker, the only one of its session, and applies its batch. -/
theorem imported_ingest (imported : Imported calls start entries w) (skipping : ∀ c, (calls c).skip_existing = true) {c : ι}
    {session : PreparedSession} {flags : List (FactId × Bool)} {db : Db} (turn : w.phase c = .prepared session)
    (prepares : (calls c).Prepares session) (committed : Commits ((calls c).ingest session) w.storage (.Ingested flags) db) :
    Imported calls start (entries ++ [⟨c,w.storage,db,some ⟨c,session,w.storage.events.nextId⟩⟩]) (w.moved c (.ingested session flags) db) ∧
      session.facts.length = flags.length := by
  unfold ImportCall.ingest ImportCall.skip_filter at committed
  rw [if_pos (skipping c)] at committed
  rcases commits_ingest committed with ⟨skipped,_⟩ | ⟨unseen,flags',same,ingests⟩
  · cases skipped
  cases same
  have rows : db.events.rows = w.storage.events.rows ++
      [EventStore.newRow (calls c).ctx.backend session.marker w.storage.events.nextId] := by
    rw [ingests.events,Table.insert_rows]
  have grown : commits (entries ++ [⟨c,w.storage,db,some ⟨c,session,w.storage.events.nextId⟩⟩]) =
      commits entries ++ [⟨c,session,w.storage.events.nextId⟩] := by
    rw [commits_snoc]
    rfl
  have pending : ¬ (w.phase c).Wrote := by
    rw [turn]
    exact id
  refine ⟨⟨?_,?_,?_,fun c' => ?_,fun k listed => ?_,fun entry listed none_ => ?_,fun entry listed k given => ?_,fun session_id single => ?_⟩,?_⟩
  · rw [grown,List.foldl_append,← imported.facts]
    exact ingests.facts
  · rw [grown,List.map_append,← List.append_assoc,← imported.events]
    exact rows
  · rw [grown,List.map_append,List.map_singleton,← List.concat_eq_append]
    exact List.Nodup.concat (fun before => pending ((imported.wrote c).mp before)) imported.once
  · rw [grown,List.map_append,List.mem_append,imported.wrote c']
    by_cases here : c' = c
    · rw [here]
      simp [World.moved,Phase.Wrote]
    · simp [World.moved,here]
  · rw [grown] at listed
    rcases List.mem_append.mp listed with old | new
    · exact imported.prepared k old
    · rw [List.mem_singleton.mp new]
      exact prepares
  · rcases List.mem_append.mp listed with old | new
    · exact imported.quiet entry old none_
    · rw [List.mem_singleton.mp new] at none_
      cases none_
  · rcases List.mem_append.mp listed with old | new
    · exact imported.own entry old k given
    · rw [List.mem_singleton.mp new] at given ⊢
      cases given
      rfl
  · have before := imported.markers session_id single
    have after : Importer.markers session_id (w.moved c (.ingested session flags) db).storage.toTables =
        Importer.markers session_id w.storage.toTables +
          if (bootstrap_marker_filter session_id).admits (EventStore.newRow (calls c).ctx.backend session.marker w.storage.events.nextId) then 1 else 0 := by
      unfold Importer.markers
      rw [show (w.moved c (.ingested session flags) db).storage.events.rows = _ from rows,List.countP_append,List.countP_singleton]
    rw [after]
    by_cases own : session_id = (calls c).parsed.session_id
    · have none_ : Importer.markers session_id w.storage.toTables = 0 := by
        rw [own]
        exact unseen
      rw [none_]
      split <;> omega
    · have other : (bootstrap_marker_filter session_id).admits
          (EventStore.newRow (calls c).ctx.backend session.marker w.storage.events.nextId) = false := by
        have named : (EventStore.newRow (calls c).ctx.backend session.marker w.storage.events.nextId).session_id =
            some (calls c).parsed.session_id := prepares.marker.1
        rw [admits_marker,named]
        simp [Ne.symm own]
      rw [other]
      exact before
  · rw [ingests.flags,List.length_map]

/-- Scopes are resolved in their own table. -/
theorem resolves {scope : Option String} {s t : Db} {id : Int} (committed : Commits (resolve_bootstrap_scope scope) s id t) :
    { t.toTables with scopes := s.scopes } = s.toTables := by
  cases scope with
  | none =>
    obtain ⟨_,rfl⟩ := commits_pure.mp committed
    rfl
  | some path =>
    have leaves : Leaves (fun t => { t with scopes := s.scopes }) (ScopeStore.ensure_path path) := leaves_ensure_path (fun _ _ => rfl) path
    exact leaves _ _ _ committed

theorem commits_early_out {call : ImportCall} {s t : Db} {present : Bool} (committed : Commits call.early_out s present t) : t = s := by
  unfold ImportCall.early_out at committed
  cases given : call.skip_filter with
  | none =>
    rw [given] at committed
    exact (commits_pure.mp committed).2
  | some filter =>
    rw [given] at committed
    obtain ⟨n,m,counted,last⟩ := commits_bind.mp committed
    obtain ⟨_,rfl⟩ := commits_pure.mp last
    exact (commits_count counted).2

/-- What a step keeps. -/
theorem imported_step (skipping : ∀ c, (calls c).skip_existing = true) (imported : Imported calls start entries w)
    (sound : ∀ c, (w.phase c).Sound (calls c)) {entry : Entry ι} {w' : World ι} (step : Step calls w entry w') :
    Imported calls start (entries ++ [entry]) w' ∧ ∀ c, (w'.phase c).Sound (calls c) := by
  have others : ∀ {c : ι} {phase : Phase} {db : Db}, phase.Sound (calls c) → ∀ c', ((w.moved c phase db).phase c').Sound (calls c') := by
    intro c phase db here c'
    by_cases same : c' = c
    · rw [same]
      simpa [World.moved] using here
    · simpa [World.moved,Function.update_of_ne same] using sound c'
  have still : ∀ {c : ι} {phase : Phase}, ¬ (w.phase c).Wrote → ¬ phase.Wrote → ((w.phase c).Wrote ↔ phase.Wrote) :=
    fun before after => ⟨fun wrote => absurd wrote before,fun wrote => absurd wrote after⟩
  cases step with
  | closed turn refused => exact ⟨imported_quiet imported (still (by rw [turn]; exact id) id) rfl,others trivial⟩
  | read_only turn opened refused => exact ⟨imported_quiet imported (still (by rw [turn]; exact id) id) rfl,others trivial⟩
  | resolve turn opened writable committed =>
    exact ⟨imported_quiet imported (still (by rw [turn]; exact id) id) (resolves committed),others trivial⟩
  | no_session turn unnamed => exact ⟨imported_quiet imported (still (by rw [turn]; exact id) id) rfl,others trivial⟩
  | @early c scope_id present db turn named committed =>
    obtain rfl := commits_early_out committed
    refine ⟨imported_quiet imported (still (by rw [turn]; exact id) ?_) rfl,others ?_⟩
    · cases present <;> exact id
    · cases present <;> trivial
  | prepare turn prepared => exact ⟨imported_quiet imported (still (by rw [turn]; exact id) id) rfl,others ⟨_,_,prepared⟩⟩
  | @ingest c session flags db turn committed =>
    have prepares : (calls c).Prepares session := by
      have before := sound c
      rwa [turn] at before
    obtain ⟨grown,paired⟩ := imported_ingest imported skipping turn prepares committed
    exact ⟨grown,others paired⟩
  | @raced c session db turn committed =>
    unfold ImportCall.ingest ImportCall.skip_filter at committed
    rw [if_pos (skipping c)] at committed
    rcases commits_ingest committed with ⟨_,rfl⟩ | ⟨_,_,ingested,_⟩
    · exact ⟨imported_quiet imported (still (by rw [turn]; exact id) id) rfl,others trivial⟩
    · cases ingested
  | report turn paired =>
    refine ⟨imported_quiet imported ?_ rfl,others trivial⟩
    rw [turn]
    exact Iff.rfl
  | @mismatch c session flags turn unpaired =>
    have before := sound c
    rw [turn] at before
    exact absurd before unpaired
  | fail e turn =>
    refine ⟨imported_quiet imported (still (fun wrote => ?_) id) rfl,others trivial⟩
    cases here : w.phase _ <;> rw [here] at turn wrote <;> first | exact turn | exact wrote

theorem imported_run (skipping : ∀ c, (calls c).skip_existing = true) (run : Run calls ⟨start,fun _ => .begun⟩ entries w) :
    Imported calls start entries w ∧ ∀ c, (w.phase c).Sound (calls c) := by
  induction run with
  | start =>
    refine ⟨⟨rfl,(List.append_nil _).symm,List.nodup_nil,fun c => ?_,?_,?_,?_,fun _ single => single⟩,fun _ => trivial⟩
    · exact ⟨fun listed => absurd listed List.not_mem_nil,fun wrote => absurd wrote id⟩
    · exact fun _ listed => absurd listed List.not_mem_nil
    · exact fun _ listed => absurd listed List.not_mem_nil
    · exact fun _ listed => absurd listed List.not_mem_nil
  | step _ next ih => exact imported_step skipping ih.1 ih.2 next

/-- Bootstraps that skip what exists, in any order of their steps: a session keeps at most
    one marker, the facts are the committed batches applied once each in commit order, and
    a call that fails or skips has changed no table but the scopes. -/
theorem sessions_import_once (skipping : ∀ c, (calls c).skip_existing = true) (run : Run calls ⟨start,fun _ => .begun⟩ entries w) :
    (∀ session_id, markers session_id start.toTables ≤ 1 → markers session_id w.storage.toTables ≤ 1) ∧
      w.storage.facts = (commits entries).foldl (Commit.apply calls) start.facts ∧
      w.storage.events.rows = start.events.rows ++ (commits entries).map (Commit.row calls) ∧
      ((commits entries).map Commit.call).Nodup ∧ (∀ c, c ∈ (commits entries).map Commit.call ↔ (w.phase c).Wrote) ∧
      (∀ k ∈ commits entries, (calls k.call).Prepares k.session ∧
        (bootstrap_marker_filter (calls k.call).parsed.session_id).admits (k.row calls) = true) ∧
      ∀ c, (w.phase c).Fruitless → ∀ entry ∈ entries, entry.call = c → entry.ScopesOnly := by
  obtain ⟨imported,_⟩ := imported_run skipping run
  refine ⟨imported.markers,imported.facts,imported.events,imported.once,imported.wrote,fun k listed => ?_,fun c fruitless entry listed same => ?_⟩
  · have prepares := imported.prepared k listed
    refine ⟨prepares,?_⟩
    have named : (k.row calls).session_id = some (calls k.call).parsed.session_id := prepares.marker.1
    have source : (k.row calls).source = "bootstrap" := prepares.marker.2
    rw [admits_marker,named,source]
    simp
  · cases committed : entry.commit with
    | none => exact imported.quiet entry listed committed
    | some k =>
      have among : c ∈ (commits entries).map Commit.call := by
        rw [← same,← imported.own entry listed k committed]
        exact List.mem_map_of_mem (List.mem_filterMap.mpr ⟨entry,listed,committed⟩)
      have wrote := (imported.wrote c).mp among
      cases here : w.phase c <;> rw [here] at fruitless wrote <;> first | exact absurd fruitless id | exact absurd wrote id

end runs

namespace Sample

/-- Two imports of one session that holds no facts. -/
def call (_ : Bool) : ImportCall where
  ctx := MemoryEngine.Sample.ctx
  scope := none
  skip_existing := true
  config := ⟨0,false,[]⟩
  libraries := hunter.libraries
  callbacks := hunter.callbacks
  fingerprint := ⟨"m","p",1,none,"f32"⟩
  parsed := ⟨[],0,"s"⟩

def session : PreparedSession := ⟨marker ((call false).prepareCtx 1) (call false).parsed,[],0,0,0,1,⟨0,0,1⟩,⟨0,0,0,0⟩⟩

end Sample

/-- Both calls look for the marker before either of them writes it. -/
theorem sessions_import_once_sample : ∃ entries w, Run Sample.call ⟨Db.fresh,fun _ => .begun⟩ entries w ∧
    (commits entries).map Commit.call = [false] ∧ w.phase false = .imported ∧ w.phase true = .skipped ∧
    markers "s" w.storage.toTables ≤ 1 ∧ ∀ entry ∈ entries, entry.call = true → entry.ScopesOnly := by
  have ends : Ends ((Sample.call false).ingest Sample.session) Db.fresh (fun outcome t =>
      (match outcome with | .Ingested flags => flags.length == 0 | .Skipped => false) && markers "s" t.toTables == 1) = true := by
    decide +kernel
  obtain ⟨outcome,db,committed,tested⟩ := commits_of_ends ends
  obtain ⟨flags,rfl⟩ : ∃ flags, outcome = .Ingested flags := by
    cases outcome with
    | Skipped => cases tested
    | Ingested flags => exact ⟨flags,rfl⟩
  obtain ⟨empty,one⟩ := Bool.and_eq_true_iff.mp tested
  have one : markers "s" db.toTables = 1 := of_decide_eq_true one
  have resolved : Commits (resolve_bootstrap_scope none) Db.fresh 1 Db.fresh := commits_pure.mpr ⟨rfl,rfl⟩
  have counted : ∀ t : Db, Commits (EventStore.count (bootstrap_marker_filter "s")) t (markers "s" t.toTables) t := fun t =>
    commits_bind.mpr ⟨(),t,commits_require.mpr ⟨by decide,rfl⟩,commits_query.mpr ⟨rfl,rfl⟩⟩
  have unseen : ∀ c, Commits (Sample.call c).early_out Db.fresh false Db.fresh := fun c =>
    commits_bind.mpr ⟨_,_,counted Db.fresh,commits_pure.mpr ⟨rfl,rfl⟩⟩
  have raced : Commits ((Sample.call true).ingest Sample.session) db .Skipped db := by
    refine commits_bind.mpr ⟨_,_,counted db,?_⟩
    rw [one]
    exact commits_pure.mpr ⟨rfl,rfl⟩
  have begun : Run Sample.call ⟨Db.fresh,fun _ => .begun⟩ [] ⟨Db.fresh,fun _ => .begun⟩ := .start
  have scopes := (begun.step (.resolve (c := false) rfl rfl rfl resolved)).step (.resolve (c := true) rfl rfl rfl resolved)
  have looks := (scopes.step (.early (c := false) rfl (by decide) (unseen false))).step (.early (c := true) rfl (by decide) (unseen true))
  have prepared : ∀ c, (prepare_session ((Sample.call c).prepareCtx 1) (Sample.call c).parsed []).2 = .ok Sample.session := fun _ => rfl
  have prepares := (looks.step (.prepare (c := false) rfl (prepared false))).step (.prepare (c := true) rfl (prepared true))
  have run := ((prepares.step (.ingest (c := false) rfl committed)).step (.raced (c := true) rfl raced)).step
    (.report (c := false) rfl (Eq.symm (of_decide_eq_true empty)))
  obtain ⟨single,_,_,_,_,_,quiet⟩ := sessions_import_once (fun _ => rfl) run
  exact ⟨_,_,run,rfl,rfl,rfl,single "s" (Nat.zero_le 1),quiet true trivial⟩

end MemoryEngine.Importer
