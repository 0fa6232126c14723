import MemoryEngine.CycleApply

/-! Validation against the apply pass. Validation reads the store once and follows
expiries in a set; the pass runs the statements delta by delta. What validation
looked at stays as it was until a delta of the report expires it, so the pass
fails only on what validation never looks at. -/

namespace MemoryEngine
open Time KeyedTable Transaction

/-- The references of a new fact hold, where `tags` events are recorded ahead of it. -/
def NewFact.References (t : Tables) (tags : Nat) (nf : NewFact) : Prop :=
  t.scopes.Has nf.scope_id ∧
    ∀ e ∈ nf.source_event_id, t.events.Has e ∨ t.events.nextId ≤ e ∧ e < t.events.nextId + tags

/-- What the store needs of the rows a delta creates: new facts refer to rows that
    exist, a synthesis starts out active, and promotions and outcomes need the root
    scope. -/
def CycleDelta.Storable (t : Tables) (tags : Nat) : CycleDelta → Prop
  | .AddFact nf => nf.References t tags
  | .Promote _ _ => t.scopes.Has 1
  | .TagOutcome _ _ => t.scopes.Has 1
  | .Synthesize _ nf => nf.References t tags ∧ nf.t_expired = none
  | _ => True

/-- Every delta is storable after those before it. -/
def StorableAll (t : Tables) : Nat → List CycleDelta → Prop
  | _,[] => True
  | tags,delta :: rest => delta.Storable t tags ∧ StorableAll t (tags + delta.tags) rest

namespace Cycle
variable {self : SqliteBackend}

/-- An active fact that reads back. -/
def Live (self : SqliteBackend) (s : Db) (id : FactId) : Prop :=
  ∃ f ∈ s.facts.rows, f.id = id ∧ f.Readable self.embed_dim ∧ f.t_expired = none

theorem Live.has {s : Db} {id : FactId} (live : Live self s id) : s.facts.Has id := by
  obtain ⟨f,member,same,_⟩ := live
  exact ⟨f,member,same⟩

theorem Live.isActive {s : Db} {id : FactId} (live : Live self s id) : s.IsActive id := by
  obtain ⟨f,member,same,_,open_⟩ := live
  exact ⟨f,member,same,open_⟩

theorem Live.le {s : Db} {id : FactId} (live : Live self s id) : id ≤ s.facts.seq := by
  obtain ⟨f,member,rfl,_⟩ := live
  exact s.facts.allocated f member

/-- A live fact stays live while the report does not expire it. -/
theorem Live.after {bound : FactId} {gone : List FactId} {fresh : List (FactId × Json)} {tags : Nat} {s t : Db} {id : FactId}
    (live : Live self s id) (evolved : Evolved bound gone fresh tags s t) (away : id ∉ gone) : Live self t id := by
  obtain ⟨f,member,rfl,readable,open_⟩ := live
  obtain ⟨f',there,keeps⟩ := evolved.kept f member
  have same := keeps.untouched away
  rw [same] at there
  exact ⟨_,there,rfl,readable,open_⟩

theorem has_after {bound : FactId} {gone : List FactId} {fresh : List (FactId × Json)} {tags : Nat} {s t : Db} {id : FactId}
    (held : s.facts.Has id) (evolved : Evolved bound gone fresh tags s t) : t.facts.Has id := by
  obtain ⟨f,member,rfl⟩ := held
  obtain ⟨f',there,keeps⟩ := evolved.kept f member
  exact ⟨f',there,keeps.id⟩

theorem commits_require_active {id : FactId} {missing : CycleError} {expired : List FactId} {s t : Db} {u : Unit}
    (committed : Commits (require_active self id missing expired) s u t) : Live self s id ∧ id ∉ expired ∧ t = s := by
  obtain ⟨f,m,first,rest⟩ := commits_bind.mp committed
  obtain ⟨found,readable,rfl⟩ := commits_require_fact.mp first
  obtain ⟨passed,rfl⟩ := commits_lift.mp rest
  obtain ⟨member,same⟩ := Table.find_eq_some.mp found
  have here : f.id = id := same
  unfold ensure_active at passed
  split at passed
  · cases passed
  · rename_i active
    obtain ⟨open_,away⟩ := not_or.mp active
    exact ⟨⟨f,member,here,readable,by simpa using open_⟩,by rwa [← here],rfl⟩

theorem require_active_commits {s : Db} {id : FactId} {expired : List FactId} (missing : CycleError) (live : Live self s id)
    (away : id ∉ expired) : Commits (require_active self id missing expired) s () s := by
  obtain ⟨f,member,same,readable,active⟩ := live
  refine commits_bind.mpr ⟨f,s,commits_require_fact.mpr ⟨Table.find_eq_some.mpr ⟨member,same⟩,readable,rfl⟩,?_⟩
  refine commits_lift.mpr ⟨?_,rfl⟩
  rw [ensure_active,if_neg]
  rintro (gone | listed)
  · rw [active] at gone
    cases gone
  · rw [same] at listed
    exact away listed

/-- What validation checks of a new fact as far as the store is concerned. -/
def ValidNew (self : SqliteBackend) (nf : NewFact) : Prop := nf.embedding.length = self.embed_dim ∧ nf.base_importance ≠ .nan

theorem commits_validate_new_fact {nf : NewFact} {s t : Db} {u : Unit} (committed : Commits (validate_new_fact self nf) s u t) :
    ValidNew self nf := by
  obtain ⟨_,_,sized,rest⟩ := commits_bind.mp committed
  obtain ⟨_,_,bounded,_⟩ := commits_bind.mp rest
  refine ⟨(commits_require.mp sized).1,fun nan => ?_⟩
  have finite := (commits_require.mp bounded).1.1
  rw [nan] at finite
  cases finite

/-- What validation establishes of a delta. -/
def Valid (self : SqliteBackend) (s : Db) (expired : List FactId) : CycleDelta → Prop
  | .AddFact nf => ValidNew self nf
  | .AdjustScore fact_id _ => Live self s fact_id ∧ fact_id ∉ expired
  | .Quarantine fact_id _ => Live self s fact_id ∧ fact_id ∉ expired
  | .Promote fact_id _ => Live self s fact_id ∧ fact_id ∉ expired
  | .TagOutcome _ _ => True
  | .Supersede old_id new_id => (Live self s old_id ∧ old_id ∉ expired) ∧ Live self s new_id ∧ new_id ∉ expired
  | .Synthesize sources nf => ValidNew self nf ∧ sources.Nodup ∧ ∀ src ∈ sources, Live self s src ∧ src ∉ expired

/-- The facts a validated delta expires were there before. -/
theorem Valid.gone_le {s : Db} {expired : List FactId} {delta : CycleDelta} (valid : Valid self s expired delta) :
    ∀ id ∈ delta.gone, id ≤ s.facts.seq := by
  intro id listed
  cases delta with
  | Quarantine fact_id reason =>
    rw [List.mem_singleton.mp listed]
    exact valid.1.le
  | Supersede old_id new_id =>
    rw [List.mem_singleton.mp listed]
    exact valid.1.1.le
  | Synthesize sources nf => exact (valid.2.2 id listed).1.le
  | AddFact nf => cases listed
  | AdjustScore fact_id adjustment => cases listed
  | Promote fact_id provenance => cases listed
  | TagOutcome fact_id outcome => cases listed

theorem valid_sources {sources expired expired' : List FactId} {s t : Db}
    (committed : Commits (sources.foldlM (fun expired src => do
      require_active self src (.UnknownFact src) expired
      return src :: expired) expired) s expired' t) :
    t = s ∧ sources.Nodup ∧ (∀ src ∈ sources, Live self s src ∧ src ∉ expired) ∧
      ∀ id, id ∈ expired' ↔ id ∈ expired ∨ id ∈ sources := by
  induction sources generalizing expired s with
  | nil =>
    obtain ⟨rfl,rfl⟩ := commits_pure.mp committed
    simp
  | cons src rest ih =>
    rw [List.foldlM_cons] at committed
    obtain ⟨middle,m,first,tail⟩ := commits_bind.mp committed
    obtain ⟨_,_,checked,last⟩ := commits_bind.mp first
    obtain ⟨live,fresh,rfl⟩ := commits_require_active checked
    obtain ⟨rfl,rfl⟩ := commits_pure.mp last
    obtain ⟨rfl,distinct,lives,grown⟩ := ih tail
    have apart : src ∉ rest := fun again => (lives src again).2 List.mem_cons_self
    refine ⟨rfl,List.nodup_cons.mpr ⟨apart,distinct⟩,?_,fun id => ?_⟩
    · intro other listed
      rcases List.mem_cons.mp listed with rfl | later
      · exact ⟨live,fresh⟩
      · exact ⟨(lives other later).1,fun early => (lives other later).2 (List.mem_cons_of_mem _ early)⟩
    · rw [grown,List.mem_cons,List.mem_cons]
      tauto

theorem valid_delta {delta : CycleDelta} {expired expired' : List FactId} {s t : Db}
    (committed : Commits (validateDelta self expired delta) s expired' t) :
    t = s ∧ Valid self s expired delta ∧ ∀ id, id ∈ expired' ↔ id ∈ expired ∨ id ∈ delta.gone := by
  cases delta with
  | AddFact nf =>
    obtain ⟨_,_,checked,last⟩ := commits_bind.mp committed
    obtain rfl := of_commits_validate_new_fact checked
    obtain ⟨rfl,rfl⟩ := commits_pure.mp last
    exact ⟨rfl,commits_validate_new_fact checked,by simp [CycleDelta.gone]⟩
  | AdjustScore fact_id adjustment =>
    obtain ⟨_,_,bounded,rest⟩ := commits_bind.mp committed
    obtain ⟨_,rfl⟩ := commits_require.mp bounded
    obtain ⟨_,_,checked,last⟩ := commits_bind.mp rest
    obtain ⟨live,fresh,rfl⟩ := commits_require_active checked
    obtain ⟨rfl,rfl⟩ := commits_pure.mp last
    exact ⟨rfl,⟨live,fresh⟩,by simp [CycleDelta.gone]⟩
  | Quarantine fact_id reason =>
    obtain ⟨_,_,checked,last⟩ := commits_bind.mp committed
    obtain ⟨live,fresh,rfl⟩ := commits_require_active checked
    obtain ⟨rfl,rfl⟩ := commits_pure.mp last
    exact ⟨rfl,⟨live,fresh⟩,by simp [CycleDelta.gone,or_comm]⟩
  | Promote fact_id provenance =>
    obtain ⟨_,_,checked,last⟩ := commits_bind.mp committed
    obtain ⟨live,fresh,rfl⟩ := commits_require_active checked
    obtain ⟨rfl,rfl⟩ := commits_pure.mp last
    exact ⟨rfl,⟨live,fresh⟩,by simp [CycleDelta.gone]⟩
  | TagOutcome fact_id outcome =>
    obtain ⟨_,_,checked,last⟩ := commits_bind.mp committed
    obtain ⟨_,_,rfl⟩ := commits_require_fact.mp checked
    obtain ⟨rfl,rfl⟩ := commits_pure.mp last
    exact ⟨rfl,trivial,by simp [CycleDelta.gone]⟩
  | Supersede old_id new_id =>
    obtain ⟨_,_,checkedOld,rest⟩ := commits_bind.mp committed
    obtain ⟨liveOld,freshOld,rfl⟩ := commits_require_active checkedOld
    obtain ⟨_,_,checkedNew,last⟩ := commits_bind.mp rest
    obtain ⟨liveNew,freshNew,rfl⟩ := commits_require_active checkedNew
    obtain ⟨rfl,rfl⟩ := commits_pure.mp last
    exact ⟨rfl,⟨⟨liveOld,freshOld⟩,liveNew,freshNew⟩,by simp [CycleDelta.gone,or_comm]⟩
  | Synthesize sources new_fact =>
    obtain ⟨_,_,checked,rest⟩ := commits_bind.mp committed
    obtain rfl := of_commits_validate_new_fact checked
    obtain ⟨_,_,nonempty,loop⟩ := commits_bind.mp rest
    obtain ⟨_,rfl⟩ := commits_require.mp nonempty
    obtain ⟨rfl,distinct,lives,grown⟩ := valid_sources loop
    exact ⟨rfl,⟨commits_validate_new_fact checked,distinct,lives⟩,grown⟩

/-- The pass so far, as far as validation of the rest relies on it. -/
structure Behind (db m : Db) (expired gone : List FactId) (fresh : List (FactId × Json)) (tags : Nat) : Prop where
  evolved : Evolved db.facts.seq gone fresh tags db m
  noted : ∀ id ∈ gone, id ∈ expired

theorem Behind.start (db : Db) : Behind db db [] [] [] 0 := ⟨Evolved.refl _ db,by simp⟩

theorem Behind.live {db m : Db} {expired gone : List FactId} {fresh : List (FactId × Json)} {tags : Nat}
    (behind : Behind db m expired gone fresh tags) {id : FactId} (live : Live self db id) (away : id ∉ expired) : Live self m id :=
  live.after behind.evolved fun listed => away (behind.noted id listed)

theorem Behind.step {db m t : Db} {expired expired' gone : List FactId} {fresh fresh' : List (FactId × Json)} {tags : Nat}
    {delta : CycleDelta} (behind : Behind db m expired gone fresh tags)
    (evolved : Evolved db.facts.seq delta.gone fresh' delta.tags m t) (grown : ∀ id, id ∈ expired' ↔ id ∈ expired ∨ id ∈ delta.gone) :
    Behind db t expired' (gone ++ delta.gone) (fresh ++ fresh') (tags + delta.tags) where
  evolved := behind.evolved.trans evolved
  noted := by
    intro id listed
    rw [grown]
    rcases List.mem_append.mp listed with before | here
    · exact .inl (behind.noted id before)
    · exact .inr here

theorem Behind.references {db m : Db} {expired gone : List FactId} {fresh : List (FactId × Json)} {tags : Nat}
    (behind : Behind db m expired gone fresh tags) (nf : NewFact) :
    FactStore.Referenced m.toTables nf ↔ nf.References db.toTables tags := by
  rw [FactStore.Referenced,NewFact.References,behind.evolved.scopes]
  simp only [behind.evolved.events]

theorem leaves_supersede (now : DateTime) (new_id old_id scope_id : Int) (pass : ApplyPass) :
    Leaves Tables.lineage (supersede now new_id old_id scope_id pass) := by
  intro s pass' t committed
  obtain ⟨_,m,expired,rest⟩ := commits_bind.mp committed
  obtain ⟨edge_id,m',inserted,last⟩ := commits_bind.mp rest
  obtain ⟨rfl,rfl⟩ := commits_pure.mp last
  obtain ⟨_,first⟩ := FactStore.commits_updateActive.mp expired
  obtain ⟨_,_,_,second⟩ := EdgeStore.commits_insert.mp inserted
  rw [second,first]

theorem leaves_sources (now : DateTime) (synth_id scope_id : Int) (sources : List FactId)
    (acc : ApplyPass × Option (DateTime × DateTime)) :
    Leaves Tables.lineage (sources.foldlM (synthesizeSource self now synth_id scope_id) acc) := by
  refine leaves_foldlM (fun acc src => ?_) sources acc
  refine leaves_bind ?_ fun _ => leaves_bind (leaves_supersede _ _ _ _ _) fun _ => leaves_pure _
  intro s f t got
  rw [(FactStore.commits_get.mp got).2.2]

/-- An active fact can be superseded by an existing one. -/
theorem supersede_commits {new_id old_id scope_id : Int} {m : Db} (now : DateTime) (pass : ApplyPass) (old : m.IsActive old_id)
    (new : m.facts.Has new_id) (scope : m.scopes.Has scope_id) :
    ∃ pass' t, Commits (supersede now new_id old_id scope_id pass) m pass' t := by
  obtain ⟨m',expired⟩ := FactStore.expire_commits now old
  have evolved := evolved_expire (le_refl old_id) expired
  have held : m.facts.Has old_id := by
    obtain ⟨f,member,same,_⟩ := old
    exact ⟨f,member,same⟩
  obtain ⟨edge_id,t,inserted⟩ := EdgeStore.insert_commits m' (supersedesEdge new_id old_id scope_id now) rfl
    (has_after new evolved) (has_after held evolved) (by rw [evolved.scopes]; exact scope)
  exact ⟨_,t,commits_bind.mpr ⟨(),m',expired,commits_bind.mpr ⟨edge_id,t,inserted,commits_pure.mpr ⟨rfl,rfl⟩⟩⟩⟩

/-- So can distinct live facts, one after the other. -/
theorem sources_commit {bound : FactId} {synth_id scope_id : Int} {sources : List FactId} {m : Db} (now : DateTime)
    (acc : ApplyPass × Option (DateTime × DateTime)) (distinct : sources.Nodup) (lives : ∀ src ∈ sources, Live self m src)
    (old : ∀ src ∈ sources, src ≤ bound) (synth : m.facts.Has synth_id) (scope : m.scopes.Has scope_id) :
    ∃ acc' t, Commits (sources.foldlM (synthesizeSource self now synth_id scope_id) acc) m acc' t := by
  induction sources generalizing acc m with
  | nil => exact ⟨acc,m,commits_pure.mpr ⟨rfl,rfl⟩⟩
  | cons src rest ih =>
    obtain ⟨apart,distinct⟩ := List.nodup_cons.mp distinct
    obtain ⟨live,lives⟩ := List.forall_mem_cons.mp lives
    obtain ⟨below,old⟩ := List.forall_mem_cons.mp old
    obtain ⟨f,member,same,readable,open_⟩ := live
    have got : Commits (FactStore.get self src) m f m := FactStore.commits_get.mpr ⟨Table.find_eq_some.mpr ⟨member,same⟩,readable,rfl⟩
    obtain ⟨pass,t,superseded⟩ := supersede_commits now acc.1 ⟨f,member,same,open_⟩ synth scope
    obtain ⟨evolved,_⟩ := evolved_supersede below superseded
    have later : ∀ other ∈ rest, Live self t other := by
      intro other listed
      refine (lives other listed).after evolved fun here => ?_
      rw [List.mem_singleton.mp here] at listed
      exact apart listed
    obtain ⟨acc',t',tail⟩ := ih (pass,_) distinct later old (has_after synth evolved) (by rw [evolved.scopes]; exact scope)
    refine ⟨acc',t',?_⟩
    rw [List.foldlM_cons]
    refine commits_bind.mpr ⟨_,t,?_,tail⟩
    exact commits_bind.mpr ⟨f,m,got,commits_bind.mpr ⟨pass,t,superseded,commits_pure.mpr ⟨rfl,rfl⟩⟩⟩

/-- No lineage record is about a fact that is still to come. -/
theorem lineage_ne_nextId (db : Db) : ∀ l ∈ db.lineage.rows, l.wisdom_fact_id ≠ db.facts.nextId := by
  intro l member same
  obtain ⟨f,held,here⟩ := db.foreign.wisdom_fact l member
  have bound : f.id ≤ db.facts.seq := db.facts.allocated f held
  have above : db.facts.seq < db.facts.nextId := Int.lt_succ _
  have equal : f.id = db.facts.nextId := here.trans same
  rw [equal] at bound
  exact absurd bound (not_le.mpr above)

/-- The row an insertion adds. -/
theorem inserted_row {fact : NewFact} {s t : Db} {id : FactId} (committed : Commits (FactStore.insert self fact) s id t) :
    id = s.facts.nextId ∧ ∃ f ∈ t.facts.rows, f.id = id ∧ f.t_expired = fact.t_expired := by
  obtain ⟨_,importance,_,same,written⟩ := FactStore.commits_insert.mp committed
  refine ⟨same,FactStore.newRow self fact importance s.facts.nextId,?_,same.symm,rfl⟩
  rw [written,Table.mem_insert]
  exact .inr rfl

/-- A new fact can be stored when its references hold and validation passed it. -/
theorem Behind.insert_commits {db m : Db} {expired gone : List FactId} {fresh : List (FactId × Json)} {tags : Nat}
    (behind : Behind db m expired gone fresh tags) (nf : NewFact) (valid : ValidNew self nf) (refers : nf.References db.toTables tags) :
    ∃ id t, Commits (FactStore.insert self nf) m id t :=
  FactStore.insert_commits_iff.mpr ⟨valid.1,valid.2,(behind.references nf).mpr refers⟩

theorem Behind.of_insert {db m t : Db} {expired gone : List FactId} {fresh : List (FactId × Json)} {tags : Nat} {nf : NewFact}
    {id : FactId} (behind : Behind db m expired gone fresh tags) (committed : Commits (FactStore.insert self nf) m id t) :
    nf.References db.toTables tags :=
  (behind.references nf).mp (FactStore.insert_commits_iff.mp ⟨id,t,committed⟩).2.2

/-- A synthesis that was applied started out active. -/
theorem synthesized_active {bound : FactId} {nf : NewFact} {sources : List FactId} {s m t : Db} {id : FactId}
    (within : bound ≤ s.facts.seq) (inserted : Commits (FactStore.insert self nf) s id m) (evolved : Evolved bound sources [] 0 m t) :
    t.IsActive id ↔ nf.t_expired = none := by
  obtain ⟨rfl,f,member,same,expiry⟩ := inserted_row inserted
  obtain ⟨f',there,keeps⟩ := evolved.kept f member
  have away : f.id ∉ sources := by
    intro listed
    have low := evolved.old f.id listed
    have above : s.facts.seq < s.facts.nextId := Int.lt_succ _
    rw [same] at low
    exact absurd (low.trans within) (not_le.mpr above)
  have same' : f'.t_expired = nf.t_expired := by rw [keeps.untouched away]; exact expiry
  constructor
  · rintro ⟨g,held,here,open_⟩
    have equal : g = f' := t.facts.key_unique held there (here.trans (same.symm.trans keeps.id.symm))
    rw [← same',← equal]
    exact open_
  · intro open_
    exact ⟨f',there,keeps.id.trans same,same'.trans open_⟩

/-- A validated delta is applied exactly when its rows can be stored. -/
theorem commits_delta_iff {db m : Db} {expired gone : List FactId} {fresh : List (FactId × Json)} {tags : Nat}
    {delta : CycleDelta} (now : DateTime) (pass : ApplyPass) (identity : db.activeSpace ≠ none) (behind : Behind db m expired gone fresh tags)
    (valid : Valid self db expired delta) : (∃ pass' t, Commits (applyDelta self now pass delta) m pass' t) ↔
      delta.Storable db.toTables tags := by
  have within := behind.evolved.seq
  cases delta with
  | AddFact nf =>
    constructor
    · rintro ⟨_,_,committed⟩
      obtain ⟨id,m',inserted,_⟩ := commits_bind.mp committed
      exact behind.of_insert inserted
    · intro refers
      obtain ⟨id,t,inserted⟩ := behind.insert_commits _ valid refers
      exact ⟨_,t,commits_bind.mpr ⟨id,t,inserted,commits_pure.mpr ⟨rfl,rfl⟩⟩⟩
  | AdjustScore fact_id adjustment =>
    refine iff_of_true ?_ trivial
    obtain ⟨f,member,same,readable,_⟩ := behind.live valid.1 valid.2
    have got : Commits (FactStore.get self fact_id) m f m := FactStore.commits_get.mpr ⟨Table.find_eq_some.mpr ⟨member,same⟩,readable,rfl⟩
    obtain ⟨t,updated⟩ := FactStore.update_base_importance_commits (adjusted self adjustment f.base_importance)
      (show m.facts.Has fact_id from ⟨f,member,same⟩)
    exact ⟨_,t,commits_bind.mpr ⟨f,m,got,commits_bind.mpr ⟨(),t,updated,commits_pure.mpr ⟨rfl,rfl⟩⟩⟩⟩
  | Quarantine fact_id reason =>
    refine iff_of_true ?_ trivial
    have live := behind.live valid.1 valid.2
    obtain ⟨f,member,same,readable,_⟩ := live
    obtain ⟨m',expired⟩ := FactStore.expire_commits now (behind.live valid.1 valid.2).isActive
    obtain ⟨f',there,keeps⟩ := (evolved_expire (le_refl fact_id) expired).kept f member
    obtain ⟨t,merged⟩ := FactStore.merge_metadata_commits
      [("quarantine",Json.object [("reason",.str reason),("at",.str now.to_rfc3339)])]
      there (keeps.id.trans same) (keeps.parses readable.2.2.2.2.2.2.2)
    exact ⟨_,t,commits_bind.mpr ⟨(),m',expired,commits_bind.mpr ⟨(),t,merged,commits_pure.mpr ⟨rfl,rfl⟩⟩⟩⟩
  | Promote fact_id provenance =>
    constructor
    · rintro ⟨_,_,committed⟩
      obtain ⟨source,m₁,got,rest⟩ := commits_bind.mp committed
      obtain ⟨_,m₂,sized,rest⟩ := commits_bind.mp rest
      obtain ⟨_,m₃,present,rest⟩ := commits_bind.mp rest
      obtain ⟨promoted_id,m₄,inserted,_⟩ := commits_bind.mp rest
      obtain ⟨_,_,rfl⟩ := FactStore.commits_get.mp got
      obtain ⟨_,rfl⟩ := commits_require.mp sized
      obtain ⟨_,rfl⟩ := EmbeddingMeta.commits_require_present.mp present
      exact (behind.of_insert inserted).1
    · intro root
      obtain ⟨f,member,same,readable,_⟩ := behind.live valid.1 valid.2
      have got : Commits (FactStore.get self fact_id) m f m :=
        FactStore.commits_get.mpr ⟨Table.find_eq_some.mpr ⟨member,same⟩,readable,rfl⟩
      have present : m.activeSpace ≠ none := by
        rw [Tables.activeSpace,behind.evolved.spaces]
        exact identity
      obtain ⟨promoted_id,m',inserted⟩ := behind.insert_commits (promotedCopy f provenance now)
        ⟨readable.1,by simp [promotedCopy]⟩ ⟨root,by simp [promotedCopy]⟩
      obtain ⟨new,copy,there,here,open_⟩ := inserted_row inserted
      have evolved := evolved_insert within inserted
      have first : ∀ l ∈ m'.lineage.rows, l.wisdom_fact_id ≠ promoted_id := by
        rw [new,FactStore.leaves_insert Tables.lineage self (fun _ _ => rfl) _ m promoted_id m' inserted]
        exact lineage_ne_nextId m
      obtain ⟨record_id,t,recorded⟩ := LineageStore.insert_commits ⟨promoted_id,[fact_id]⟩ provenance
        ⟨copy,there,here,open_⟩ (by simpa using has_after ⟨f,member,same⟩ evolved) first
      exact ⟨_,t,commits_bind.mpr ⟨f,m,got,commits_bind.mpr ⟨(),m,commits_require.mpr ⟨readable.1,rfl⟩,
        commits_bind.mpr ⟨(),m,EmbeddingMeta.commits_require_present.mpr ⟨present,rfl⟩,
          commits_bind.mpr ⟨promoted_id,m',inserted,commits_bind.mpr ⟨record_id,t,recorded,commits_pure.mpr ⟨rfl,rfl⟩⟩⟩⟩⟩⟩⟩
  | TagOutcome fact_id outcome =>
    constructor
    · rintro ⟨_,_,committed⟩
      obtain ⟨id,m',tagged,_⟩ := commits_bind.mp committed
      obtain ⟨_,written⟩ := EventStore.commits_insert.mp tagged
      have foreign := m'.foreign
      rw [written] at foreign
      have member : EventStore.newRow self (outcomeEvent fact_id outcome now) m.events.nextId ∈
          (m.events.insert (EventStore.newRow self (outcomeEvent fact_id outcome now))
            (EventStore.newRow_key self (outcomeEvent fact_id outcome now))).rows := by
        rw [Table.mem_insert]
        exact .inr rfl
      have root := foreign.event_scope _ member
      rw [behind.evolved.scopes] at root
      exact root
    · intro root
      have root' : m.scopes.Has (outcomeEvent fact_id outcome now).scope_id := by
        rw [behind.evolved.scopes]
        exact root
      obtain ⟨id,t,tagged⟩ := EventStore.insert_commits self root'
      exact ⟨_,t,commits_bind.mpr ⟨id,t,tagged,commits_pure.mpr ⟨rfl,rfl⟩⟩⟩
  | Supersede old_id new_id =>
    refine iff_of_true ?_ trivial
    obtain ⟨f,member,same,readable,_⟩ := behind.live valid.2.1 valid.2.2
    have got : Commits (FactStore.get self new_id) m f m := FactStore.commits_get.mpr ⟨Table.find_eq_some.mpr ⟨member,same⟩,readable,rfl⟩
    obtain ⟨pass',t,superseded⟩ := supersede_commits now pass (behind.live valid.1.1 valid.1.2).isActive
      (show m.facts.Has new_id from ⟨f,member,same⟩) (m.foreign.fact_scope f member)
    exact ⟨_,t,commits_bind.mpr ⟨f,m,got,commits_bind.mpr ⟨pass',t,superseded,commits_pure.mpr ⟨rfl,rfl⟩⟩⟩⟩
  | Synthesize sources new_fact =>
    obtain ⟨valid,distinct,lives⟩ := valid
    have old : ∀ src ∈ sources, src ≤ db.facts.seq := fun src listed => (lives src listed).1.le
    constructor
    · rintro ⟨_,_,committed⟩
      obtain ⟨synth_id,m₁,inserted,rest⟩ := commits_bind.mp committed
      obtain ⟨⟨after,range⟩,m₂,looped,rest⟩ := commits_bind.mp rest
      obtain ⟨record_id,m₃,recorded,_⟩ := commits_bind.mp rest
      obtain ⟨many,_⟩ := evolved_sources old looped
      exact ⟨behind.of_insert inserted,(synthesized_active within inserted many).mp (LineageStore.commits_insert.mp recorded).1⟩
    · rintro ⟨refers,open_⟩
      obtain ⟨synth_id,m₁,inserted⟩ := behind.insert_commits _ valid refers
      obtain ⟨new,row,there,here,_⟩ := inserted_row inserted
      have evolved := evolved_insert within inserted
      have lives' : ∀ src ∈ sources, Live self m₁ src := by
        intro src listed
        exact (behind.live (lives src listed).1 (lives src listed).2).after evolved List.not_mem_nil
      have scope : m₁.scopes.Has new_fact.scope_id := by
        rw [evolved.scopes,behind.evolved.scopes]
        exact refers.1
      obtain ⟨⟨after,range⟩,m₂,looped⟩ := sources_commit now (pass,none) distinct lives' old
        (show m₁.facts.Has synth_id from ⟨row,there,here⟩) scope
      obtain ⟨many,_⟩ := evolved_sources old looped
      have first : ∀ l ∈ m₂.lineage.rows, l.wisdom_fact_id ≠ synth_id := by
        rw [leaves_sources now synth_id new_fact.scope_id sources _ m₁ _ m₂ looped,new,
          FactStore.leaves_insert Tables.lineage self (fun _ _ => rfl) _ m synth_id m₁ inserted]
        exact lineage_ne_nextId m
      obtain ⟨record_id,t,recorded⟩ := LineageStore.insert_commits ⟨synth_id,sources⟩
        (synthesisProvenance sources (range.getD (new_fact.t_created,new_fact.t_created)))
        ((synthesized_active within inserted many).mpr open_) (fun src listed => has_after (lives' src listed).has many) first
      exact ⟨_,t,commits_bind.mpr ⟨synth_id,m₁,inserted,commits_bind.mpr ⟨_,m₂,looped,
        commits_bind.mpr ⟨record_id,t,recorded,commits_pure.mpr ⟨rfl,rfl⟩⟩⟩⟩⟩

end Cycle
end MemoryEngine
