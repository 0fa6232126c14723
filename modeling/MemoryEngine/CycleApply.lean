import MemoryEngine.CycleMirror
import MemoryEngine.Constraints

/-! What the apply pass does to the facts. Rows that were there before keep their
id, pin and marker, change nothing but their importance while the report has not
expired them, and every other row is one the pass created and wrote down. -/

namespace MemoryEngine
open Time KeyedTable Transaction

/-- The facts a delta expires. -/
def CycleDelta.gone : CycleDelta → List FactId
  | .Quarantine fact_id _ => [fact_id]
  | .Supersede old_id _ => [old_id]
  | .Synthesize sources _ => sources
  | _ => []

/-- The fact a delta brings along. -/
def CycleDelta.newFact : CycleDelta → Option NewFact
  | .AddFact nf => some nf
  | .Synthesize _ nf => some nf
  | _ => none

/-- The number of events a delta records. -/
def CycleDelta.tags : CycleDelta → Nat
  | .TagOutcome _ _ => 1
  | _ => 0

namespace Cycle
variable {self : SqliteBackend}

/-- The facts the pass has created so far. -/
def ApplyPass.created (pass : ApplyPass) : List FactId :=
  pass.result.new_fact_ids ++ pass.result.promoted_fact_ids ++ pass.synthesize_new_ids

/-- A row and what the report makes of it. -/
structure Kept (gone : List FactId) (f f' : Fact) : Prop where
  id : f'.id = f.id
  pinned : f'.is_pinned = f.is_pinned
  marked : f.metadata.hasKey "dream_cycle" = true → f'.metadata.hasKey "dream_cycle" = true
  parses : f.metadata.Parses → f'.metadata.Parses
  expiry : f'.t_expired = none → f.t_expired = none
  untouched : f.id ∉ gone → f' = { f with base_importance := f'.base_importance }

theorem Kept.refl (gone : List FactId) (f : Fact) : Kept gone f f :=
  ⟨rfl,rfl,fun held => held,fun held => held,fun held => held,fun _ => rfl⟩

theorem Kept.trans {gone gone' : List FactId} {f f' f'' : Fact} (first : Kept gone f f') (second : Kept gone' f' f'') :
    Kept (gone ++ gone') f f'' where
  id := second.id.trans first.id
  pinned := second.pinned.trans first.pinned
  marked := fun held => second.marked (first.marked held)
  parses := fun held => second.parses (first.parses held)
  expiry := fun open_ => first.expiry (second.expiry open_)
  untouched := by
    intro away
    obtain ⟨left,right⟩ := not_or.mp (fun either => away (List.mem_append.mpr either))
    have right' : f'.id ∉ gone' := by rwa [first.id]
    rw [second.untouched right',first.untouched left]

/-- How a part of the apply pass changes the store: which ids it expires, which
    rows it creates with which metadata, and how many events it records. Ids up to
    `bound` were handed out before the pass. -/
structure Evolved (bound : FactId) (gone : List FactId) (fresh : List (FactId × Json)) (tags : Nat) (s t : Db) : Prop where
  kept : ∀ f ∈ s.facts.rows, ∃ f' ∈ t.facts.rows, Kept gone f f'
  only : ∀ f' ∈ t.facts.rows, s.facts.Has f'.id ∨ f'.id ∈ fresh.map Prod.fst
  made : ∀ entry ∈ fresh, bound < entry.1 ∧ ∃ f ∈ t.facts.rows, f.id = entry.1 ∧ f.metadata = entry.2
  old : ∀ id ∈ gone, id ≤ bound
  seq : s.facts.seq ≤ t.facts.seq
  next_event : t.events.nextId = s.events.nextId + tags
  events : ∀ id, t.events.Has id ↔ s.events.Has id ∨ s.events.nextId ≤ id ∧ id < s.events.nextId + tags
  scopes : t.scopes = s.scopes
  spaces : t.embedding_spaces = s.embedding_spaces
  config : t.config = s.config

theorem Evolved.trans {bound : FactId} {gone gone' : List FactId} {fresh fresh' : List (FactId × Json)} {tags tags' : Nat}
    {s m t : Db} (first : Evolved bound gone fresh tags s m) (second : Evolved bound gone' fresh' tags' m t) :
    Evolved bound (gone ++ gone') (fresh ++ fresh') (tags + tags') s t where
  kept := by
    intro f member
    obtain ⟨f',here,left⟩ := first.kept f member
    obtain ⟨f'',there,right⟩ := second.kept f' here
    exact ⟨f'',there,left.trans right⟩
  only := by
    intro f member
    rw [List.map_append]
    rcases second.only f member with ⟨f',held,same⟩ | new
    · rcases first.only f' held with before | new
      · exact .inl (by rw [← same]; exact before)
      · exact .inr (List.mem_append_left _ (by rw [← same]; exact new))
    · exact .inr (List.mem_append_right _ new)
  made := by
    intro entry listed
    rcases List.mem_append.mp listed with left | right
    · obtain ⟨above,f,member,same,metadata⟩ := first.made entry left
      obtain ⟨f',there,keeps⟩ := second.kept f member
      have away : f.id ∉ gone' := fun gone => absurd (second.old _ gone) (by rw [same]; exact not_le.mpr above)
      exact ⟨above,f',there,keeps.id.trans same,by rw [keeps.untouched away]; exact metadata⟩
    · exact second.made entry right
  old := by
    intro id listed
    rcases List.mem_append.mp listed with left | right
    · exact first.old id left
    · exact second.old id right
  seq := first.seq.trans second.seq
  next_event := by
    rw [second.next_event,first.next_event]
    push_cast
    omega
  events := by
    intro id
    rw [second.events,first.events,first.next_event]
    constructor
    · rintro ((held | inside) | inside)
      · exact .inl held
      · exact .inr (by push_cast; omega)
      · exact .inr (by push_cast; omega)
    · rintro (held | inside)
      · exact .inl (.inl held)
      · by_cases early : id < s.events.nextId + tags
        · exact .inl (.inr ⟨inside.1,early⟩)
        · exact .inr (by push_cast at inside; omega)
  scopes := second.scopes.trans first.scopes
  spaces := second.spaces.trans first.spaces
  config := second.config.trans first.config

/-- A statement that leaves facts and events alone. -/
theorem Evolved.of_same (bound : FactId) {s t : Db} (facts : t.facts = s.facts) (events : t.events = s.events)
    (scopes : t.scopes = s.scopes) (spaces : t.embedding_spaces = s.embedding_spaces) (config : t.config = s.config) :
    Evolved bound [] [] 0 s t where
  kept := fun f member => ⟨f,by rwa [facts],Kept.refl _ f⟩
  only := by
    intro f member
    rw [facts] at member
    exact .inl (Table.has_of_mem member)
  made := by simp
  old := by simp
  seq := le_of_eq (by rw [facts])
  next_event := by rw [events]; simp
  events := by
    intro id
    rw [events]
    constructor
    · exact .inl
    · rintro (held | inside)
      · exact held
      · omega
  scopes := scopes
  spaces := spaces
  config := config

theorem Evolved.refl (bound : FactId) (s : Db) : Evolved bound [] [] 0 s s := Evolved.of_same bound rfl rfl rfl rfl rfl

/-- An update of rows that keeps what the report keeps. -/
theorem Evolved.of_update {bound : FactId} {gone : List FactId} {s t : Db} {sel : Fact → Bool} {change : Fact → Fact}
    {same : ∀ f, (change f).id = f.id} (old : ∀ id ∈ gone, id ≤ bound)
    (keeps : ∀ f ∈ s.facts.rows, sel f = true → Kept gone f (change f))
    (written : t.toTables = { s.toTables with facts := s.facts.update sel change same }) : Evolved bound gone [] 0 s t where
  kept := by
    intro f member
    refine ⟨if sel f then change f else f,?_,?_⟩
    · rw [written,Table.mem_update]
      exact ⟨f,member,rfl⟩
    · by_cases chosen : sel f = true
      · rw [if_pos chosen]
        exact keeps f member chosen
      · rw [if_neg chosen]
        exact Kept.refl _ f
  only := by
    intro f member
    rw [written,Table.mem_update] at member
    obtain ⟨old,held,rfl⟩ := member
    refine .inl ⟨old,held,?_⟩
    split
    · exact (same old).symm
    · rfl
  made := by simp
  old := old
  seq := le_of_eq (by rw [written]; rfl)
  next_event := by rw [written]; simp
  events := by
    intro id
    rw [written]
    constructor
    · exact .inl
    · rintro (held | inside)
      · exact held
      · omega
  scopes := by rw [written]
  spaces := by rw [written]
  config := by rw [written]

theorem evolved_insert {bound : FactId} {fact : NewFact} {s t : Db} {id : FactId} (within : bound ≤ s.facts.seq)
    (committed : Commits (FactStore.insert self fact) s id t) : Evolved bound [] [(id,fact.metadata)] 0 s t := by
  obtain ⟨_,importance,_,rfl,written⟩ := FactStore.commits_insert.mp committed
  have member : FactStore.newRow self fact importance s.facts.nextId ∈ t.facts.rows := by
    rw [written,Table.mem_insert]
    exact .inr rfl
  refine ⟨?_,?_,?_,by simp,?_,?_,?_,by rw [written],by rw [written],by rw [written]⟩
  · intro f held
    refine ⟨f,?_,Kept.refl _ f⟩
    rw [written,Table.mem_insert]
    exact .inl held
  · intro f held
    rw [written,Table.mem_insert] at held
    rcases held with old | rfl
    · exact .inl (Table.has_of_mem old)
    · exact .inr (List.mem_singleton_self _)
  · intro entry listed
    rw [List.mem_singleton.mp listed]
    exact ⟨lt_of_le_of_lt within (Int.lt_succ _),_,member,rfl,rfl⟩
  · rw [written]
    exact Int.le_of_lt (Int.lt_succ _)
  · rw [written]
    simp
  · intro id
    rw [written]
    constructor
    · exact .inl
    · rintro (held | inside)
      · exact held
      · omega

theorem evolved_get {bound : FactId} {id : FactId} {s t : Db} {f : Fact} (committed : Commits (FactStore.get self id) s f t) :
    Evolved bound [] [] 0 s t := by
  rw [(FactStore.commits_get.mp committed).2.2]
  exact Evolved.refl bound s

theorem evolved_expire {bound : FactId} {id : FactId} {now : DateTime} {s t : Db} {u : Unit} (old : id ≤ bound)
    (committed : Commits (FactStore.expire id now) s u t) : Evolved bound [id] [] 0 s t := by
  obtain ⟨_,written⟩ := FactStore.commits_updateActive.mp committed
  refine Evolved.of_update (by simpa using old) (fun f _ chosen => ?_) written
  have same : f.id = id := by
    have both := Bool.and_eq_true_iff.mp chosen
    simpa using both.1
  exact ⟨rfl,rfl,fun held => held,fun held => held,by simp,fun away => absurd (by simp [same]) away⟩

theorem evolved_merge {bound : FactId} {id : FactId} {fields : List (String × Json)} {s t : Db} {u : Unit} (old : id ≤ bound)
    (shallow : (Json.obj fields).Parses) (committed : Commits (FactStore.merge_metadata id (.obj fields)) s u t) :
    Evolved bound [id] [] 0 s t := by
  obtain ⟨_,written⟩ := FactStore.commits_merge_metadata.mp committed
  refine Evolved.of_update (by simpa using old) (fun f _ chosen => ?_) written
  have same : f.id = id := by simpa using chosen
  refine ⟨rfl,rfl,fun held => ?_,fun held => FactStore.mergedMetadata_parses held shallow,fun held => held,
    fun away => absurd (by simp [same]) away⟩
  rw [FactStore.hasKey_mergedMetadata,held]
  rfl

theorem evolved_importance {bound : FactId} {id : FactId} {importance : SqlReal} {s t : Db} {u : Unit}
    (committed : Commits (FactStore.update_base_importance id (.num importance)) s u t) : Evolved bound [] [] 0 s t := by
  obtain ⟨_,written⟩ := FactStore.commits_updateRow.mp committed
  refine Evolved.of_update (by simp) (fun f _ _ => ?_) written
  exact ⟨rfl,rfl,fun held => held,fun held => held,fun held => held,fun _ => rfl⟩

theorem evolved_edge {bound : FactId} {edge : NewEdge} {s t : Db} {id : Int} (committed : Commits (EdgeStore.insert edge) s id t) :
    Evolved bound [] [] 0 s t := by
  obtain ⟨_,_,_,written⟩ := EdgeStore.commits_insert.mp committed
  exact Evolved.of_same bound (by rw [written]) (by rw [written]) (by rw [written]) (by rw [written]) (by rw [written])

theorem evolved_lineage {bound : FactId} {record : NewLineageRecord} {provenance : PromotionProvenance} {s t : Db} {id : Int}
    (committed : Commits (LineageStore.insert record provenance) s id t) : Evolved bound [] [] 0 s t := by
  obtain ⟨_,_,_,written⟩ := LineageStore.commits_insert.mp committed
  exact Evolved.of_same bound (by rw [written]) (by rw [written]) (by rw [written]) (by rw [written]) (by rw [written])

theorem evolved_event {bound : FactId} {event : NewEvent} {s t : Db} {id : Int}
    (committed : Commits (EventStore.insert self event) s id t) : Evolved bound [] [] 1 s t := by
  obtain ⟨_,written⟩ := EventStore.commits_insert.mp committed
  have facts : t.facts = s.facts := by rw [written]
  have same := Evolved.refl bound s
  refine ⟨fun f member => ⟨f,by rwa [facts],Kept.refl _ f⟩,?_,by simp,by simp,le_of_eq (by rw [facts]),?_,?_,
    by rw [written],by rw [written],by rw [written]⟩
  · intro f member
    rw [facts] at member
    exact .inl (Table.has_of_mem member)
  · rw [written]
    rfl
  · intro id
    rw [written,Table.has_insert]
    refine or_congr_right ?_
    constructor
    · rintro rfl
      exact ⟨le_refl _,Int.lt_succ _⟩
    · intro inside
      push_cast at inside
      omega

theorem evolved_supersede {bound : FactId} {now : DateTime} {new_id old_id scope_id : Int} {pass pass' : ApplyPass} {s t : Db}
    (old : old_id ≤ bound) (committed : Commits (supersede now new_id old_id scope_id pass) s pass' t) :
    Evolved bound [old_id] [] 0 s t ∧ pass'.created = pass.created ∧ pass'.supersede_new_ids = pass.supersede_new_ids ∧
      pass'.synthesize_new_ids = pass.synthesize_new_ids := by
  obtain ⟨_,m,expired,rest⟩ := commits_bind.mp committed
  obtain ⟨edge_id,m',inserted,last⟩ := commits_bind.mp rest
  obtain ⟨rfl,rfl⟩ := commits_pure.mp last
  exact ⟨(evolved_expire old expired).trans (evolved_edge inserted),rfl,rfl,rfl⟩

theorem evolved_sources {bound : FactId} {now : DateTime} {synth_id scope_id : Int} {sources : List FactId}
    {acc acc' : ApplyPass × Option (DateTime × DateTime)} {s t : Db} (old : ∀ src ∈ sources, src ≤ bound)
    (committed : Commits (sources.foldlM (synthesizeSource self now synth_id scope_id) acc) s acc' t) :
    Evolved bound sources [] 0 s t ∧ acc'.1.created = acc.1.created ∧ acc'.1.supersede_new_ids = acc.1.supersede_new_ids ∧
      acc'.1.synthesize_new_ids = acc.1.synthesize_new_ids := by
  induction sources generalizing acc s with
  | nil =>
    obtain ⟨rfl,rfl⟩ := commits_pure.mp committed
    exact ⟨Evolved.refl bound _,rfl,rfl,rfl⟩
  | cons src rest ih =>
    obtain ⟨here,later⟩ := List.forall_mem_cons.mp old
    rw [List.foldlM_cons] at committed
    obtain ⟨next,m,first,tail⟩ := commits_bind.mp committed
    obtain ⟨src_fact,m₁,got,body⟩ := commits_bind.mp first
    obtain ⟨pass,m₂,superseded,last⟩ := commits_bind.mp body
    obtain ⟨rfl,rfl⟩ := commits_pure.mp last
    obtain ⟨one,created,news,synths⟩ := evolved_supersede here superseded
    obtain ⟨more,created',news',synths'⟩ := ih later tail
    refine ⟨?_,created'.trans created,news'.trans news,synths'.trans synths⟩
    exact ((evolved_get got).trans one).trans more

/-- What the pass wrote down about one delta. -/
structure Noted (delta : CycleDelta) (fresh : List (FactId × Json)) (pass pass' : ApplyPass) : Prop where
  created : ∀ id, id ∈ pass'.created ↔ id ∈ pass.created ∨ id ∈ fresh.map Prod.fst
  parses : (∀ entry ∈ fresh, entry.2.Parses) ↔ ∀ nf ∈ delta.newFact, nf.metadata.Parses
  successors : pass'.supersede_new_ids = pass.supersede_new_ids ++ (delta.supersessions.filterMap Prod.fst)

theorem quarantine_parses (reason : String) (now : DateTime) :
    (Json.object [("quarantine",Json.object [("reason",.str reason),("at",.str now.to_rfc3339)])]).Parses := by
  have inner := Json.depth_object [("reason",.str reason),("at",.str now.to_rfc3339)]
  have outer := Json.depth_object [("quarantine",Json.object [("reason",.str reason),("at",.str now.to_rfc3339)])]
  simp only [Json.fieldDepth,Json.depth] at inner outer
  unfold Json.Parses Json.RECURSION_LIMIT
  omega

theorem promotedCopy_parses {source : Fact} (provenance : PromotionProvenance) (now : DateTime) (parses : source.metadata.Parses) :
    (promotedCopy source provenance now).metadata.Parses := by
  have grown := Json.fieldDepth_insertField "promotion_provenance" provenance.to_value source.metadata.fields
  have held := Json.fieldDepth_fields source.metadata
  have shallow : provenance.to_value.depth ≤ 2 := by
    have items : ∀ ids : List Int, Json.itemDepth (ids.map .int) = 0 := by
      intro ids
      induction ids with
      | nil => rfl
      | cons id rest ih => simp [Json.itemDepth,Json.depth,ih]
    have confidence : (Json.ofF64 provenance.confidence).depth = 0 := by
      unfold Json.ofF64
      split
      · rfl
      · split <;> rfl
    have merged := Json.depth_object
      [("source_count",.int provenance.source_count),("session_count",.int provenance.session_count),
        ("date_range_start",.str provenance.date_range_start.serde_text),("date_range_end",.str provenance.date_range_end.serde_text),
        ("confidence",Json.ofF64 provenance.confidence),("method_version",.str provenance.method_version),
        ("representative_ids",.arr (provenance.representative_ids.map .int))]
    simp only [Json.fieldDepth,Json.depth,items,confidence] at merged
    exact merged
  unfold Json.Parses Json.RECURSION_LIMIT at *
  rw [promotedCopy,Json.depth]
  cases metadata : source.metadata <;> rw [metadata] at grown held parses <;>
    simp only [Json.fields,Json.fieldDepth,Json.depth] at * <;> omega

/-- One delta: the ids it expires, the rows it creates, the notes it takes. -/
theorem evolved_delta {bound : FactId} {now : DateTime} {delta : CycleDelta} {pass pass' : ApplyPass} {s t : Db}
    (within : bound ≤ s.facts.seq) (old : ∀ id ∈ delta.gone, id ≤ bound)
    (committed : Commits (applyDelta self now pass delta) s pass' t) :
    ∃ fresh, Evolved bound delta.gone fresh delta.tags s t ∧ Noted delta fresh pass pass' := by
  cases delta with
  | AddFact nf =>
    obtain ⟨id,m,inserted,last⟩ := commits_bind.mp committed
    obtain ⟨rfl,rfl⟩ := commits_pure.mp last
    refine ⟨[(id,nf.metadata)],evolved_insert within inserted,?_,?_,?_⟩
    · intro other
      simp only [ApplyPass.created,List.mem_append,List.map_cons,List.map_nil,List.mem_singleton]
      simp only [or_assoc,or_comm,or_left_comm]
    · simp [CycleDelta.newFact]
    · simp [CycleDelta.supersessions]
  | AdjustScore fact_id adjustment =>
    obtain ⟨current,m,got,rest⟩ := commits_bind.mp committed
    obtain ⟨_,m',updated,last⟩ := commits_bind.mp rest
    obtain ⟨rfl,rfl⟩ := commits_pure.mp last
    refine ⟨[],(evolved_get got).trans (evolved_importance updated),?_,?_,?_⟩
    · simp [ApplyPass.created]
    · simp [CycleDelta.newFact]
    · simp [CycleDelta.supersessions]
  | Quarantine fact_id reason =>
    obtain ⟨_,m,expired,rest⟩ := commits_bind.mp committed
    obtain ⟨_,m',merged,last⟩ := commits_bind.mp rest
    obtain ⟨rfl,rfl⟩ := commits_pure.mp last
    have known := old fact_id (List.mem_singleton_self _)
    have both := (evolved_expire known expired).trans (evolved_merge known (quarantine_parses reason now) merged)
    refine ⟨[],{ both with
      kept := fun f member => ?_
      old := fun id listed => both.old id (List.mem_append_left _ listed) },?_,?_,?_⟩
    · obtain ⟨f',there,keeps⟩ := both.kept f member
      refine ⟨f',there,{ keeps with untouched := fun away => keeps.untouched ?_ }⟩
      simpa [CycleDelta.gone] using away
    · simp [ApplyPass.created]
    · simp [CycleDelta.newFact]
    · simp [CycleDelta.supersessions]
  | Promote fact_id provenance =>
    obtain ⟨source,m₁,got,rest⟩ := commits_bind.mp committed
    obtain ⟨_,m₂,sized,rest⟩ := commits_bind.mp rest
    obtain ⟨_,m₃,present,rest⟩ := commits_bind.mp rest
    obtain ⟨promoted_id,m₄,inserted,rest⟩ := commits_bind.mp rest
    obtain ⟨_,m₅,recorded,last⟩ := commits_bind.mp rest
    obtain ⟨rfl,rfl⟩ := commits_pure.mp last
    obtain ⟨_,readable,rfl⟩ := FactStore.commits_get.mp got
    obtain ⟨_,rfl⟩ := commits_require.mp sized
    obtain ⟨_,rfl⟩ := EmbeddingMeta.commits_require_present.mp present
    refine ⟨[(promoted_id,(promotedCopy source provenance now).metadata)],
      (evolved_insert within inserted).trans (evolved_lineage recorded),?_,?_,?_⟩
    · intro other
      simp only [ApplyPass.created,List.mem_append,List.map_cons,List.map_nil,List.mem_singleton]
      simp only [or_comm,or_left_comm]
    · have parses := promotedCopy_parses provenance now readable.2.2.2.2.2.2.2
      simpa [CycleDelta.newFact] using parses
    · simp [CycleDelta.supersessions]
  | TagOutcome fact_id outcome =>
    obtain ⟨_,m,tagged,last⟩ := commits_bind.mp committed
    obtain ⟨rfl,rfl⟩ := commits_pure.mp last
    refine ⟨[],evolved_event tagged,?_,?_,?_⟩
    · simp [ApplyPass.created]
    · simp [CycleDelta.newFact]
    · simp [CycleDelta.supersessions]
  | Supersede old_id new_id =>
    obtain ⟨new_fact,m,got,rest⟩ := commits_bind.mp committed
    obtain ⟨after,m',superseded,last⟩ := commits_bind.mp rest
    obtain ⟨rfl,rfl⟩ := commits_pure.mp last
    obtain ⟨one,created,news,_⟩ := evolved_supersede (old old_id (List.mem_singleton_self _)) superseded
    refine ⟨[],(evolved_get got).trans one,?_,?_,?_⟩
    · intro other
      have same : ApplyPass.created { after with
          supersede_new_ids := after.supersede_new_ids ++ [new_id]
          result := { after.result with superseded := after.result.superseded + 1 } } = after.created := rfl
      rw [same,created]
      simp
    · simp [CycleDelta.newFact]
    · simp [CycleDelta.supersessions,news]
  | Synthesize sources new_fact =>
    obtain ⟨synth_id,m,inserted,rest⟩ := commits_bind.mp committed
    obtain ⟨⟨after,range⟩,m',looped,rest⟩ := commits_bind.mp rest
    obtain ⟨_,m'',recorded,last⟩ := commits_bind.mp rest
    obtain ⟨rfl,rfl⟩ := commits_pure.mp last
    obtain ⟨many,created,news,synths⟩ := evolved_sources old looped
    have grown := ((evolved_insert within inserted).trans many).trans (evolved_lineage recorded)
    rw [List.nil_append,List.append_nil] at grown
    refine ⟨[(synth_id,new_fact.metadata)],grown,?_,?_,?_⟩
    · intro other
      have member := congrArg (other ∈ ·) created
      simp only [ApplyPass.created,List.mem_append,eq_iff_iff] at member
      simp only [ApplyPass.created,List.mem_append,List.map_cons,List.map_nil,List.mem_singleton]
      rw [← member]
      exact or_assoc.symm
    · simp [CycleDelta.newFact]
    · have none_ : (CycleDelta.Synthesize sources new_fact).supersessions.filterMap Prod.fst = [] := by
        simp [CycleDelta.supersessions,List.filterMap_map]
      rw [none_,List.append_nil]
      exact news

end Cycle
end MemoryEngine
