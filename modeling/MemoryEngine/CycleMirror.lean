import MemoryEngine.Cycle
import MemoryEngine.GraphEdit

/-! A cycle report and the in-memory graph. The store gains one active edge for
each superseded fact and loses none; the graph drops the edges of a superseded
fact before it gains the new one. The two agree exactly when that drop finds
nothing. -/

namespace MemoryEngine
open Time KeyedTable Transaction Mirror GraphEdit

/-- The facts a delta supersedes, each with the existing fact that takes its
    place, or none where a new fact does. -/
def CycleDelta.supersessions : CycleDelta → List (Option FactId × FactId)
  | .Supersede old_id new_id => [(some new_id,old_id)]
  | .Synthesize sources _ => sources.map (fun src => (none,src))
  | _ => []

def CycleReport.supersessions (report : CycleReport) : List (Option FactId × FactId) :=
  report.deltas.flatMap CycleDelta.supersessions

/-- No superseded fact is an end of an active edge, and no fact that takes the
    place of another is superseded by a later entry. -/
def CycleReport.Undisturbed (report : CycleReport) (t : Tables) : Prop :=
  (∀ pair ∈ report.supersessions, ∀ edge ∈ t.activeTriples, tripleTouches pair.2 edge = false) ∧
    report.supersessions.Pairwise (fun earlier later => earlier.1 ≠ some later.2)

namespace Cycle
variable {self : SqliteBackend}

theorem commits_require_fact {id : FactId} {missing : CycleError} {s t : Db} {f : Fact} :
    Commits (require_fact self id missing) s f t ↔ s.facts.find id = some f ∧ f.Readable self.embed_dim ∧ t = s := by
  simp only [require_fact,commits_bind]
  constructor
  · rintro ⟨r,m,first,rest⟩
    rcases commits_attempt.mp first with ⟨f',rfl,got⟩ | ⟨e,rfl,_,rfl⟩
    · obtain ⟨rfl,rfl⟩ := commits_pure.mp rest
      exact FactStore.commits_get.mp got
    · cases e <;> exact absurd rest commits_throw
  · intro got
    exact ⟨.ok f,t,commits_attempt.mpr (.inl ⟨f,rfl,FactStore.commits_get.mpr got⟩),commits_pure.mpr ⟨rfl,rfl⟩⟩

/-- The check passes only on an existing fact the report has not expired. -/
theorem of_commits_require_active {id : FactId} {missing : CycleError} {expired : List FactId} {s t : Db} {u : Unit}
    (committed : Commits (require_active self id missing expired) s u t) : s.facts.Has id ∧ id ∉ expired ∧ t = s := by
  obtain ⟨f,m,first,rest⟩ := commits_bind.mp committed
  obtain ⟨found,_,rfl⟩ := commits_require_fact.mp first
  obtain ⟨passed,rfl⟩ := commits_lift.mp rest
  have sameId : f.id = id := (Table.find_eq_some.mp found).2
  unfold ensure_active at passed
  split at passed
  · cases passed
  · rename_i active
    refine ⟨Table.has_iff_find.mpr ⟨f,found⟩,fun listed => active (.inr ?_),rfl⟩
    rwa [sameId]

theorem of_commits_validate_new_fact {nf : NewFact} {s t : Db} {u : Unit}
    (committed : Commits (validate_new_fact self nf) s u t) : t = s := by
  simp only [validate_new_fact,commits_bind,commits_require,commits_lift] at committed
  obtain ⟨_,_,⟨_,rfl⟩,_,_,⟨_,rfl⟩,_,_,⟨_,rfl⟩,_,rfl⟩ := committed
  rfl

/-- What validation establishes of the ids a report supersedes: each exists, none
    was expired before and none is superseded twice. -/
structure Superseded (s : Db) (expired expired' olds : List FactId) : Prop where
  nodup : olds.Nodup
  exist : ∀ old ∈ olds, s.facts.Has old
  fresh : ∀ old ∈ olds, old ∉ expired
  grown : ∀ id, id ∈ expired ∨ id ∈ olds → id ∈ expired'

theorem Superseded.none {s : Db} {expired expired' : List FactId} (grown : ∀ id ∈ expired, id ∈ expired') :
    Superseded s expired expired' [] :=
  ⟨List.nodup_nil,by simp,by simp,by simpa using grown⟩

theorem Superseded.one {s : Db} {expired : List FactId} {old : FactId} (exist : s.facts.Has old) (fresh : old ∉ expired) :
    Superseded s expired (old :: expired) [old] :=
  ⟨List.nodup_singleton old,by simpa using exist,by simpa using fresh,by simp [or_comm]⟩

theorem Superseded.append {s : Db} {expired middle expired' olds olds' : List FactId}
    (first : Superseded s expired middle olds) (second : Superseded s middle expired' olds') :
    Superseded s expired expired' (olds ++ olds') where
  nodup := by
    refine List.nodup_append.mpr ⟨first.nodup,second.nodup,?_⟩
    rintro a left _ right rfl
    exact second.fresh a right (first.grown a (.inr left))
  exist := by
    intro old member
    rcases List.mem_append.mp member with left | right
    · exact first.exist old left
    · exact second.exist old right
  fresh := by
    intro old member listed
    rcases List.mem_append.mp member with left | right
    · exact first.fresh old left listed
    · exact second.fresh old right (first.grown old (.inl listed))
  grown := by
    rintro id (listed | member)
    · exact second.grown id (.inl (first.grown id (.inl listed)))
    · rcases List.mem_append.mp member with left | right
      · exact second.grown id (.inl (first.grown id (.inr left)))
      · exact second.grown id (.inr right)

/-- The sources of a synthesis, one after the other. -/
theorem validated_sources {sources expired expired' : List FactId} {s t : Db}
    (committed : Commits (sources.foldlM (fun expired src => do
      require_active self src (.UnknownFact src) expired
      return src :: expired) expired) s expired' t) : t = s ∧ Superseded s expired expired' sources := by
  induction sources generalizing expired s with
  | nil =>
    obtain ⟨rfl,rfl⟩ := commits_pure.mp committed
    exact ⟨rfl,Superseded.none fun _ listed => listed⟩
  | cons src rest ih =>
    rw [List.foldlM_cons] at committed
    obtain ⟨middle,m,first,tail⟩ := commits_bind.mp committed
    obtain ⟨_,_,checked,last⟩ := commits_bind.mp first
    obtain ⟨exist,fresh,rfl⟩ := of_commits_require_active checked
    obtain ⟨rfl,rfl⟩ := commits_pure.mp last
    obtain ⟨rfl,after⟩ := ih tail
    exact ⟨rfl,(Superseded.one exist fresh).append after⟩

theorem validated_delta {delta : CycleDelta} {expired expired' : List FactId} {s t : Db}
    (committed : Commits (validateDelta self expired delta) s expired' t) :
    t = s ∧ Superseded s expired expired' (delta.supersessions.map Prod.snd) := by
  cases delta with
  | AddFact nf =>
    obtain ⟨_,_,checked,last⟩ := commits_bind.mp committed
    obtain rfl := of_commits_validate_new_fact checked
    obtain ⟨rfl,rfl⟩ := commits_pure.mp last
    exact ⟨rfl,Superseded.none fun _ listed => listed⟩
  | AdjustScore fact_id adjustment =>
    obtain ⟨_,_,bounded,rest⟩ := commits_bind.mp committed
    obtain ⟨_,rfl⟩ := commits_require.mp bounded
    obtain ⟨_,_,checked,last⟩ := commits_bind.mp rest
    obtain ⟨_,_,rfl⟩ := of_commits_require_active checked
    obtain ⟨rfl,rfl⟩ := commits_pure.mp last
    exact ⟨rfl,Superseded.none fun _ listed => listed⟩
  | Quarantine fact_id reason =>
    obtain ⟨_,_,checked,last⟩ := commits_bind.mp committed
    obtain ⟨_,_,rfl⟩ := of_commits_require_active checked
    obtain ⟨rfl,rfl⟩ := commits_pure.mp last
    exact ⟨rfl,Superseded.none fun _ listed => List.mem_cons_of_mem _ listed⟩
  | Promote fact_id provenance =>
    obtain ⟨_,_,checked,last⟩ := commits_bind.mp committed
    obtain ⟨_,_,rfl⟩ := of_commits_require_active checked
    obtain ⟨rfl,rfl⟩ := commits_pure.mp last
    exact ⟨rfl,Superseded.none fun _ listed => listed⟩
  | TagOutcome fact_id outcome =>
    obtain ⟨_,_,checked,last⟩ := commits_bind.mp committed
    obtain ⟨_,_,rfl⟩ := commits_require_fact.mp checked
    obtain ⟨rfl,rfl⟩ := commits_pure.mp last
    exact ⟨rfl,Superseded.none fun _ listed => listed⟩
  | Supersede old_id new_id =>
    obtain ⟨_,_,checkedOld,rest⟩ := commits_bind.mp committed
    obtain ⟨exist,fresh,rfl⟩ := of_commits_require_active checkedOld
    obtain ⟨_,_,checkedNew,last⟩ := commits_bind.mp rest
    obtain ⟨_,_,rfl⟩ := of_commits_require_active checkedNew
    obtain ⟨rfl,rfl⟩ := commits_pure.mp last
    exact ⟨rfl,Superseded.one exist fresh⟩
  | Synthesize sources new_fact =>
    obtain ⟨_,_,checked,rest⟩ := commits_bind.mp committed
    obtain rfl := of_commits_validate_new_fact checked
    obtain ⟨_,_,nonempty,loop⟩ := commits_bind.mp rest
    obtain ⟨_,rfl⟩ := commits_require.mp nonempty
    have olds : (CycleDelta.Synthesize sources new_fact).supersessions.map Prod.snd = sources := by
      simp [CycleDelta.supersessions,Function.comp_def]
    rw [olds]
    exact validated_sources loop

theorem validated_deltas {deltas : List CycleDelta} {expired expired' : List FactId} {s t : Db}
    (committed : Commits (deltas.foldlM (validateDelta self) expired) s expired' t) :
    t = s ∧ Superseded s expired expired' ((deltas.flatMap CycleDelta.supersessions).map Prod.snd) := by
  induction deltas generalizing expired s with
  | nil =>
    obtain ⟨rfl,rfl⟩ := commits_pure.mp committed
    exact ⟨rfl,Superseded.none fun _ listed => listed⟩
  | cons delta rest ih =>
    rw [List.foldlM_cons] at committed
    obtain ⟨middle,m,first,tail⟩ := commits_bind.mp committed
    obtain ⟨rfl,here⟩ := validated_delta first
    obtain ⟨rfl,after⟩ := ih tail
    rw [List.flatMap_cons,List.map_append]
    exact ⟨rfl,here.append after⟩

theorem processed_unchanged (ids : List FactId) : Keeps (fun s t : Db => t = s)
    (ids.foldlM (fun _ id => do let _ ← require_fact self id (.UnknownFact id)) ()) := by
  refine Keeps.foldlM ?_ ?_ ?_ ids ()
  · exact fun s => rfl
  · exact fun s m t first second => second.trans first
  · intro _ id s u t committed
    obtain ⟨f,m,first,rest⟩ := commits_bind.mp committed
    obtain ⟨_,_,rfl⟩ := commits_require_fact.mp first
    exact (commits_pure.mp rest).2

theorem validated_report {report : CycleReport} {s t : Db} {u : Unit}
    (committed : Commits (validate_report self report) s u t) :
    t = s ∧ (report.supersessions.map Prod.snd).Nodup ∧ ∀ pair ∈ report.supersessions, s.facts.Has pair.2 := by
  obtain ⟨expired,m,first,rest⟩ := commits_bind.mp committed
  obtain ⟨rfl,superseded⟩ := validated_deltas first
  refine ⟨processed_unchanged _ _ _ _ rest,superseded.nodup,fun pair member => ?_⟩
  exact superseded.exist _ (List.mem_map_of_mem member)

/-- The graph edge of one entry of the supersede log. -/
def link (entry : FactId × FactId × Int) : GraphEdgeSnapshot :=
  ⟨entry.2.2,entry.1,entry.2.1,.Supersedes,F64.ofRat 1⟩

/-- A log entry carries out a supersession: an existing successor is the listed
    one, a new successor has an id not handed out before `bound`. -/
def Fulfils (bound : FactId) (entry : FactId × FactId × Int) (pair : Option FactId × FactId) : Prop :=
  entry.2.1 = pair.2 ∧ match pair.1 with
    | some id => entry.1 = id
    | none => bound ≤ entry.1

/-- What the apply pass does to the edges while it works off supersessions. -/
structure Linked (bound : FactId) (s t : Db) (pass pass' : ApplyPass) (pairs : List (Option FactId × FactId)) : Prop where
  later : s.facts.nextId ≤ t.facts.nextId
  entries : ∃ log, pass'.supersede_edges = pass.supersede_edges ++ log ∧ Edits (adding (log.map link)) s t ∧
    List.Forall₂ (Fulfils bound) log pairs

theorem Linked.of_sameEdges {bound : FactId} {s t : Db} {pass pass' : ApplyPass} (same : SameEdges s t)
    (log : pass'.supersede_edges = pass.supersede_edges) : Linked bound s t pass pass' [] :=
  ⟨same.nextId_le,[],by simpa using log,Edits.adding_none same,List.Forall₂.nil⟩

theorem Linked.trans {bound : FactId} {s m t : Db} {pass pass₁ pass₂ : ApplyPass} {pairs pairs' : List (Option FactId × FactId)}
    (first : Linked bound s m pass pass₁ pairs) (second : Linked bound m t pass₁ pass₂ pairs') :
    Linked bound s t pass pass₂ (pairs ++ pairs') := by
  obtain ⟨early,log,grown,edges,carried⟩ := first
  obtain ⟨late,log',grown',edges',carried'⟩ := second
  refine ⟨early.trans late,log ++ log',?_,?_,List.rel_append carried carried'⟩
  · rw [grown',grown,List.append_assoc]
  · rw [List.map_append]
    exact edges.adding_trans edges'

/-- A statement before that leaves the edges alone changes nothing. -/
theorem Linked.after {bound : FactId} {s m t : Db} {pass pass' : ApplyPass} {pairs : List (Option FactId × FactId)}
    (same : SameEdges s m) (linked : Linked bound m t pass pass' pairs) : Linked bound s t pass pass' pairs :=
  (Linked.of_sameEdges same rfl).trans linked

/-- Nor does one that comes later and leaves the log alone. -/
theorem Linked.before {bound : FactId} {s m t : Db} {pass pass₁ pass₂ : ApplyPass} {pairs : List (Option FactId × FactId)}
    (linked : Linked bound s m pass pass₁ pairs) (same : SameEdges m t) (log : pass₂.supersede_edges = pass₁.supersede_edges) :
    Linked bound s t pass pass₂ pairs := by
  have joined := linked.trans (Linked.of_sameEdges same log)
  rwa [List.append_nil] at joined

/-- Superseding one fact adds its edge to the active ones and to the log. -/
theorem linked_supersede (bound : FactId) (successor : Option FactId) {now : DateTime} {new_id old_id scope_id : Int}
    {pass pass' : ApplyPass} {s t : Db} (carried : ∀ edge_id, Fulfils bound (new_id,old_id,edge_id) (successor,old_id))
    (committed : Commits (supersede now new_id old_id scope_id pass) s pass' t) :
    Linked bound s t pass pass' [(successor,old_id)] := by
  obtain ⟨_,m,expired,rest⟩ := commits_bind.mp committed
  obtain ⟨edge_id,m',inserted,last⟩ := commits_bind.mp rest
  obtain ⟨rfl,rfl⟩ := commits_pure.mp last
  have same := FactStore.keepsEdges_expire _ _ _ _ _ expired
  obtain ⟨_,_,_,written⟩ := EdgeStore.commits_insert.mp inserted
  refine Linked.after same ⟨?_,[(new_id,old_id,edge_id)],rfl,EdgeStore.edits_insert rfl inserted,?_⟩
  · rw [written]
  · exact List.Forall₂.cons (carried _) List.Forall₂.nil

/-- The sources of a synthesis are superseded by the new fact, one by one. -/
theorem linked_sources (bound : FactId) {now : DateTime} {synth_id scope_id : Int} (fresh : bound ≤ synth_id)
    {sources : List FactId} {acc acc' : ApplyPass × Option (DateTime × DateTime)} {s t : Db}
    (committed : Commits (sources.foldlM (synthesizeSource self now synth_id scope_id) acc) s acc' t) :
    Linked bound s t acc.1 acc'.1 (sources.map (fun src => (none,src))) := by
  induction sources generalizing acc s with
  | nil =>
    obtain ⟨rfl,rfl⟩ := commits_pure.mp committed
    exact Linked.of_sameEdges (SameEdges.refl _) rfl
  | cons src rest ih =>
    rw [List.foldlM_cons] at committed
    obtain ⟨next,m,first,tail⟩ := commits_bind.mp committed
    obtain ⟨src_fact,m₁,got,rest⟩ := commits_bind.mp first
    obtain ⟨pass,m₂,superseded,last⟩ := commits_bind.mp rest
    obtain ⟨rfl,rfl⟩ := commits_pure.mp last
    have here := linked_supersede bound none (fun _ => ⟨rfl,fresh⟩) superseded
    exact (Linked.after (FactStore.keepsEdges_get _ _ _ _ _ got) here).trans (ih tail)

/-- One delta carries out its supersessions and does nothing else to the edges. -/
theorem linked_delta {bound : FactId} {now : DateTime} {delta : CycleDelta} {pass pass' : ApplyPass} {s t : Db}
    (fresh : bound ≤ s.facts.nextId) (committed : Commits (applyDelta self now pass delta) s pass' t) :
    Linked bound s t pass pass' delta.supersessions := by
  cases delta with
  | AddFact nf =>
    obtain ⟨id,m,inserted,last⟩ := commits_bind.mp committed
    obtain ⟨rfl,rfl⟩ := commits_pure.mp last
    exact Linked.of_sameEdges (FactStore.keepsEdges_insert _ _ _ _ _ inserted) rfl
  | AdjustScore fact_id adjustment =>
    obtain ⟨current,m,got,rest⟩ := commits_bind.mp committed
    obtain ⟨_,m',updated,last⟩ := commits_bind.mp rest
    obtain ⟨rfl,rfl⟩ := commits_pure.mp last
    have first := FactStore.keepsEdges_get _ _ _ _ _ got
    exact Linked.of_sameEdges (first.trans (FactStore.keepsEdges_update_base_importance _ _ _ _ _ updated)) rfl
  | Quarantine fact_id reason =>
    obtain ⟨_,m,expired,rest⟩ := commits_bind.mp committed
    obtain ⟨_,m',merged,last⟩ := commits_bind.mp rest
    obtain ⟨rfl,rfl⟩ := commits_pure.mp last
    have first := FactStore.keepsEdges_expire _ _ _ _ _ expired
    exact Linked.of_sameEdges (first.trans (FactStore.keepsEdges_merge_metadata _ _ _ _ _ merged)) rfl
  | Promote fact_id provenance =>
    obtain ⟨source,m₁,got,rest⟩ := commits_bind.mp committed
    obtain ⟨_,m₂,sized,rest⟩ := commits_bind.mp rest
    obtain ⟨_,m₃,present,rest⟩ := commits_bind.mp rest
    obtain ⟨promoted_id,m₄,inserted,rest⟩ := commits_bind.mp rest
    obtain ⟨_,m₅,recorded,last⟩ := commits_bind.mp rest
    obtain ⟨rfl,rfl⟩ := commits_pure.mp last
    have checked := (FactStore.keepsEdges_get _ _ _ _ _ got).trans (keepsEdges_require _ _ _ sized)
    have guarded := checked.trans (EmbeddingMeta.keepsEdges_require_present _ _ _ present)
    have written := guarded.trans (FactStore.keepsEdges_insert _ _ _ _ _ inserted)
    exact Linked.of_sameEdges (written.trans (keepsEdges_of_core (LineageStore.keepsCore_insert _ _) _ _ _ recorded)) rfl
  | TagOutcome fact_id outcome =>
    obtain ⟨_,m,tagged,last⟩ := commits_bind.mp committed
    obtain ⟨rfl,rfl⟩ := commits_pure.mp last
    exact Linked.of_sameEdges (keepsEdges_of_core (EventStore.keepsCore_insert _ _) _ _ _ tagged) rfl
  | Supersede old_id new_id =>
    obtain ⟨new_fact,m,got,rest⟩ := commits_bind.mp committed
    obtain ⟨after,m',superseded,last⟩ := commits_bind.mp rest
    obtain ⟨rfl,rfl⟩ := commits_pure.mp last
    have here := linked_supersede bound (some new_id) (fun _ => ⟨rfl,rfl⟩) superseded
    exact (Linked.after (FactStore.keepsEdges_get _ _ _ _ _ got) here).before (SameEdges.refl _) rfl
  | Synthesize sources new_fact =>
    obtain ⟨synth_id,m,inserted,rest⟩ := commits_bind.mp committed
    obtain ⟨acc,m',looped,rest⟩ := commits_bind.mp rest
    obtain ⟨_,m'',recorded,last⟩ := commits_bind.mp rest
    obtain ⟨rfl,rfl⟩ := commits_pure.mp last
    obtain ⟨_,_,_,rfl,_⟩ := FactStore.commits_insert.mp inserted
    have here := linked_sources bound fresh looped
    have entered := Linked.after (FactStore.keepsEdges_insert _ _ _ _ _ inserted) here
    exact entered.before (keepsEdges_of_core (LineageStore.keepsCore_insert _ _) _ _ _ recorded) rfl

theorem linked_deltas {bound : FactId} {now : DateTime} {deltas : List CycleDelta} {pass pass' : ApplyPass} {s t : Db}
    (fresh : bound ≤ s.facts.nextId) (committed : Commits (deltas.foldlM (applyDelta self now) pass) s pass' t) :
    Linked bound s t pass pass' (deltas.flatMap CycleDelta.supersessions) := by
  induction deltas generalizing pass s with
  | nil =>
    obtain ⟨rfl,rfl⟩ := commits_pure.mp committed
    exact Linked.of_sameEdges (SameEdges.refl _) rfl
  | cons delta rest ih =>
    rw [List.foldlM_cons] at committed
    obtain ⟨next,m,first,tail⟩ := commits_bind.mp committed
    have here := linked_delta fresh first
    rw [List.flatMap_cons]
    exact here.trans (ih (fresh.trans here.later) tail)

theorem keepsEdges_append_cycle_history (codec : HistoryCodec) (metadata : CycleMetadata) :
    KeepsEdges (append_cycle_history codec metadata) := by
  refine keepsEdges_bind (keepsEdges_of_core (Config.keepsCore_get_config _)) fun stored => ?_
  cases stored with
  | none => exact keepsEdges_bind (keepsEdges_pure _) fun _ => keepsEdges_of_core (Config.keepsCore_set_config _ _)
  | some s => exact keepsEdges_bind (keepsEdges_lift _) fun _ => keepsEdges_of_core (Config.keepsCore_set_config _ _)

/-- The committed transaction: distinct existing facts are superseded, each by one
    new active edge, and no edge is expired. -/
theorem applied_report {codec : HistoryCodec} {report : CycleReport} {now : DateTime} {pass : ApplyPass} {s t : Db}
    (committed : Commits (apply_cycle_deltas_atomic self codec report now) s pass t) :
    (report.supersessions.map Prod.snd).Nodup ∧ (∀ pair ∈ report.supersessions, s.facts.Has pair.2) ∧
      Edits (adding (pass.supersede_edges.map link)) s t ∧
        List.Forall₂ (Fulfils s.facts.nextId) pass.supersede_edges report.supersessions := by
  obtain ⟨_,m₁,validated,rest⟩ := commits_bind.mp committed
  obtain ⟨rfl,distinct,exist⟩ := validated_report validated
  obtain ⟨_,m₂,guarded,rest⟩ := commits_bind.mp rest
  obtain ⟨_,m₃,applied,rest⟩ := commits_bind.mp rest
  obtain ⟨_,m₄,marked,rest⟩ := commits_bind.mp rest
  obtain ⟨_,m₅,stamped,rest⟩ := commits_bind.mp rest
  obtain ⟨_,_,appended,last⟩ := commits_bind.mp rest
  obtain ⟨rfl,rfl⟩ := commits_pure.mp last
  have guard := keepsEdges_guarded EmbeddingMeta.keepsEdges_require_present _ _ _ guarded
  have tail : SameEdges m₃ t := by
    have first := FactStore.keepsEdges_mark_dream_cycled _ _ _ _ _ _ marked
    have second := keepsEdges_of_core (Config.keepsCore_set_config _ _) _ _ _ stamped
    exact (first.trans second).trans (keepsEdges_append_cycle_history _ _ _ _ _ appended)
  have linked := (Linked.after guard (linked_deltas guard.nextId_le applied)).before tail rfl
  obtain ⟨_,log,grown,edges,carried⟩ := linked
  rw [show pass.supersede_edges = log from grown]
  exact ⟨distinct,exist,edges,carried⟩

/-- What the graph does for one entry of the log. -/
def replacement (entry : FactId × FactId × Int) : GraphEdit := ⟨tripleTouches entry.2.1,{link entry}⟩

/-- The same on edge triples. -/
def replayed (entry : FactId × FactId × Int) : Edit (Int × FactId × FactId) := (replacement entry).triples

theorem view_mirrorSupersede (g : MemoryGraph) (entry : FactId × FactId × Int) :
    (mirrorSupersede g entry).view = (replacement entry).apply g.view := by
  rw [mirrorSupersede,MemoryGraph.view_add_edge,MemoryGraph.view_remove_edges_by_fact,GraphEdit.apply,Edit.apply,
    Multiset.add_comm,← Multiset.singleton_add]
  rfl

theorem edgeTriples_mirrorSupersede (g : MemoryGraph) (entry : FactId × FactId × Int) :
    (mirrorSupersede g entry).edgeTriples = (replayed entry).apply g.edgeTriples := by
  rw [MemoryGraph.edgeTriples,view_mirrorSupersede,map_apply]
  rfl

theorem edgeTriples_replay (log : List (FactId × FactId × Int)) (g : MemoryGraph) :
    (log.foldl mirrorSupersede g).edgeTriples = replay (log.map replayed) g.edgeTriples := by
  induction log generalizing g with
  | nil => rfl
  | cons entry rest ih => rw [List.foldl_cons,ih,edgeTriples_mirrorSupersede,List.map_cons,replay_cons]

theorem added_replayed (log : List (FactId × FactId × Int)) :
    added (log.map replayed) = (log.map link : Multiset GraphEdgeSnapshot).map GraphEdgeSnapshot.triple := by
  induction log with
  | nil => rfl
  | cons entry rest ih =>
    have head : added ((entry :: rest).map replayed) = {(entry.2.2,entry.1,entry.2.1)} + added (rest.map replayed) := rfl
    rw [head,ih,Multiset.singleton_add,List.map_cons,← Multiset.cons_coe,Multiset.map_cons]
    rfl

theorem carriedOut_olds {bound : FactId} {log : List (FactId × FactId × Int)} {pairs : List (Option FactId × FactId)}
    (carried : List.Forall₂ (Fulfils bound) log pairs) : log.map (fun entry => entry.2.1) = pairs.map Prod.snd := by
  induction carried with
  | nil => rfl
  | cons here _ ih => rw [List.map_cons,List.map_cons,here.1,ih]

/-- A later removal hits the new edge exactly when it removes the edges of the
    existing successor: a new successor is never superseded. -/
theorem hits_successor {bound : FactId} {entry : FactId × FactId × Int} {pair : Option FactId × FactId} {old : FactId}
    (carried : Fulfils bound entry pair) (apart : pair.2 ≠ old) (known : old < bound) :
    tripleTouches old (entry.2.2,entry.1,entry.2.1) = false ↔ pair.1 ≠ some old := by
  obtain ⟨same,successor⟩ := carried
  simp only [tripleTouches,same,Bool.or_eq_false_iff,beq_eq_false_iff_ne]
  cases given : pair.1 with
  | none =>
    rw [given] at successor
    have above : bound ≤ entry.1 := successor
    exact ⟨fun _ => by simp,fun _ => ⟨(lt_of_lt_of_le known above).ne',apart⟩⟩
  | some id =>
    rw [given] at successor
    have equal : entry.1 = id := successor
    rw [equal]
    exact ⟨fun both => by simpa using both.1,fun other => ⟨by simpa using other,apart⟩⟩

/-- No removal hits an earlier addition exactly when no successor is superseded
    later. -/
theorem pairwise_replayed {bound : FactId} {log : List (FactId × FactId × Int)} {pairs : List (Option FactId × FactId)}
    (carried : List.Forall₂ (Fulfils bound) log pairs) (distinct : (pairs.map Prod.snd).Nodup)
    (known : ∀ pair ∈ pairs, pair.2 < bound) :
    (log.map replayed).Pairwise (fun earlier later => ∀ x ∈ earlier.add, later.drop x = false) ↔
      pairs.Pairwise (fun earlier later => earlier.1 ≠ some later.2) := by
  induction carried with
  | nil => simp
  | @cons entry pair log pairs here rest ih =>
    obtain ⟨apart,distinct⟩ := List.nodup_cons.mp distinct
    obtain ⟨_,known⟩ := List.forall_mem_cons.mp known
    rw [List.map_cons,List.pairwise_cons,List.pairwise_cons,ih distinct known]
    refine and_congr_left fun _ => ?_
    have head : (∀ later ∈ log.map replayed, ∀ x ∈ (replayed entry).add, later.drop x = false) ↔
        ∀ old ∈ log.map (fun entry => entry.2.1), tripleTouches old (entry.2.2,entry.1,entry.2.1) = false := by
      rw [List.forall_mem_map,List.forall_mem_map]
      refine forall₂_congr fun later _ => ?_
      have single : (replayed entry).add = {(entry.2.2,entry.1,entry.2.1)} := Multiset.map_singleton _ _
      rw [single]
      exact ⟨fun all => all _ (Multiset.mem_singleton_self _),fun hit x member => Multiset.mem_singleton.mp member ▸ hit⟩
    rw [head,carriedOut_olds rest,List.forall_mem_map]
    refine forall₂_congr fun later member => hits_successor here ?_ (known later member)
    exact fun same => apart (List.mem_map.mpr ⟨later,member,same.symm⟩)

/-- The graph keeps up with the store exactly on an undisturbed report. -/
theorem replay_iff_undisturbed {codec : HistoryCodec} {report : CycleReport} {now : DateTime} {pass : ApplyPass} {s t : Db}
    (committed : Commits (apply_cycle_deltas_atomic self codec report now) s pass t) :
    replay (pass.supersede_edges.map replayed) s.activeTriples = t.activeTriples ↔ report.Undisturbed s.toTables := by
  obtain ⟨distinct,exist,edges,carried⟩ := applied_report committed
  have known : ∀ pair ∈ report.supersessions, pair.2 < s.facts.nextId := by
    intro pair member
    obtain ⟨row,held,same⟩ := exist pair member
    rw [← same]
    exact s.facts.nextId_fresh held
  have total : t.activeTriples = s.activeTriples + added (pass.supersede_edges.map replayed) := by
    rw [Tables.activeTriples,edges.store,adding_apply,Multiset.map_add,added_replayed]
    rfl
  rw [total,replay_eq_add,pairwise_replayed carried distinct known,CycleReport.Undisturbed]
  refine and_congr_left fun _ => ?_
  have olds : (∀ edit ∈ pass.supersede_edges.map replayed, ∀ x ∈ s.activeTriples, edit.drop x = false) ↔
      ∀ old ∈ pass.supersede_edges.map (fun entry => entry.2.1), ∀ x ∈ s.activeTriples, tripleTouches old x = false := by
    rw [List.forall_mem_map,List.forall_mem_map]
    exact Iff.rfl
  rw [olds,carriedOut_olds carried,List.forall_mem_map]

/-- A whole log as one edit. -/
def superseding (log : List (FactId × FactId × Int)) : GraphEdit :=
  ⟨(dropping (log.map (fun entry => entry.2.1))).drop,log.map link⟩

theorem view_replay (log : List (FactId × FactId × Int)) (g : MemoryGraph) :
    (log.foldl mirrorSupersede g).view = replay (log.map (fun entry => (replacement entry).full)) g.view := by
  induction log generalizing g with
  | nil => rfl
  | cons entry rest ih => rw [List.foldl_cons,ih,view_mirrorSupersede,List.map_cons,replay_cons,GraphEdit.apply]

theorem added_replacement (log : List (FactId × FactId × Int)) :
    added (log.map (fun entry => (replacement entry).full)) = (log.map link : Multiset GraphEdgeSnapshot) := by
  induction log with
  | nil => rfl
  | cons entry rest ih =>
    have head : added ((entry :: rest).map (fun entry => (replacement entry).full)) =
        {link entry} + added (rest.map (fun entry => (replacement entry).full)) := rfl
    rw [head,ih,Multiset.singleton_add,List.map_cons,← Multiset.cons_coe]

/-- On an undisturbed report the store and the graph carry out one edit. -/
theorem edits_undisturbed {codec : HistoryCodec} {report : CycleReport} {now : DateTime} {pass : ApplyPass} {s t : Db}
    (committed : Commits (apply_cycle_deltas_atomic self codec report now) s pass t) (undisturbed : report.Undisturbed s.toTables) :
    Edits (superseding pass.supersede_edges) s t ∧
      Replays (superseding pass.supersede_edges) (fun g => pass.supersede_edges.foldl mirrorSupersede g) := by
  obtain ⟨distinct,exist,edges,carried⟩ := applied_report committed
  obtain ⟨untouched,later⟩ := undisturbed
  have known : ∀ pair ∈ report.supersessions, pair.2 < s.facts.nextId := by
    intro pair member
    obtain ⟨row,held,same⟩ := exist pair member
    rw [← same]
    exact s.facts.nextId_fresh held
  have kept := (pairwise_replayed carried distinct known).mpr later
  constructor
  · refine ⟨?_,edges.fresh,edges.later⟩
    have whole : s.activeEdges.filter (fun e => (superseding pass.supersede_edges).drop e.triple = false) = s.activeEdges := by
      refine Multiset.filter_eq_self.mpr fun e member => ?_
      have held : e.triple ∈ s.activeTriples := Multiset.mem_map_of_mem _ member
      simp only [superseding,dropping,List.any_eq_false,carriedOut_olds carried]
      intro old listed
      obtain ⟨pair,among,rfl⟩ := List.mem_map.mp listed
      simpa using untouched pair among e.triple held
    rw [edges.store,adding_apply,GraphEdit.apply,Edit.apply]
    exact congrArg (· + _) whole.symm
  · intro g _
    have pairwise : (pass.supersede_edges.map (fun entry => (replacement entry).full)).Pairwise
        (fun earlier later => ∀ x ∈ earlier.add, later.drop x = false) := by
      rw [List.pairwise_map] at kept ⊢
      refine kept.imp fun {earlier later} apart x member => ?_
      rw [Multiset.mem_singleton.mp member]
      exact apart _ (Multiset.mem_singleton_self _)
    rw [view_replay,replay_eq_filter _ _ pairwise,added_replacement,GraphEdit.apply,Edit.apply]
    congr 1
    refine Multiset.filter_congr fun e _ => ?_
    simp only [superseding,GraphEdit.full,dropping,List.any_eq_false,List.forall_mem_map]
    exact forall₂_congr fun entry _ => (Bool.not_eq_true _).symm ▸ Iff.rfl

end Cycle

theorem commits_apply_cycle_report {ctx : MemoryCtx} {codec : HistoryCodec} {report : CycleReport} {now : DateTime}
    {s t : Engine} {result : ApplyResult} (applied : Commits (apply_cycle_report ctx codec report now) s result t) :
    ∃ pass, Commits (Cycle.apply_cycle_deltas_atomic ctx.backend codec report now) s.storage pass t.storage ∧
      t.graph = pass.supersede_edges.foldl mirrorSupersede s.graph := by
  obtain ⟨_,_,opened,gated⟩ := commits_bind.mp applied
  obtain ⟨_,rfl⟩ := commits_lift.mp opened
  obtain ⟨_,_,writable,body⟩ := commits_bind.mp gated
  obtain ⟨_,rfl⟩ := commits_lift.mp writable
  obtain ⟨pass,m,ported,rest⟩ := commits_bind.mp body
  obtain ⟨db,committed,rfl⟩ := commits_port.mp ported
  obtain ⟨_,m',mirrored,last⟩ := commits_bind.mp rest
  obtain rfl := commits_mirror.mp mirrored
  obtain ⟨rfl,rfl⟩ := commits_pure.mp last
  exact ⟨pass,committed,rfl⟩

/-- After a successful report the graph holds exactly the active edges of the
    store if and only if the report was undisturbed. -/
theorem apply_cycle_report_mirrors_iff {ctx : MemoryCtx} {codec : HistoryCodec} {report : CycleReport} {now : DateTime}
    {s t : Engine} {result : ApplyResult} (mirrored : s.graph.edgeTriples = s.storage.activeTriples)
    (applied : Commits (apply_cycle_report ctx codec report now) s result t) :
    t.graph.edgeTriples = t.storage.activeTriples ↔ report.Undisturbed s.storage.toTables := by
  obtain ⟨pass,committed,graph⟩ := commits_apply_cycle_report applied
  rw [graph,Cycle.edgeTriples_replay,mirrored]
  exact Cycle.replay_iff_undisturbed committed

namespace Cycle

/-- The report of a first cycle. -/
def sampleReport (deltas : List CycleDelta) : CycleReport where
  deltas := deltas
  identity := ⟨[],[],[]⟩
  metadata := ⟨1,Sample.moment,⟨Sample.moment,Sample.moment⟩,0,"m",[]⟩

/-- The history text of a first cycle. -/
def sampleCodec : HistoryCodec where
  from_str := fun _ => .ok []
  to_string := fun _ =>
    "[\x7b\"cycle_id\":1,\"ran_at\":\"2026-01-01T00:00:00Z\",\"time_window\":\x7b\"start\":\"2026-01-01T00:00:00Z\"," ++
    "\"end\":\"2026-01-01T00:00:00Z\"\x7d,\"facts_selected\":0,\"method_version\":\"m\",\"processed_ids\":[]\x7d]"

/-- Apply the deltas to the sample store. -/
def sampleRun (deltas : List CycleDelta) : Op ApplyResult :=
  apply_cycle_report Sample.ctx sampleCodec (sampleReport deltas) Sample.moment

end Cycle

/-- Superseding the second fact, which no edge touches, keeps the graph exact. -/
theorem apply_cycle_report_mirrors_sample : ∃ result t, Commits (Cycle.sampleRun [.Supersede 2 1]) Sample.engine result t ∧
    (t.graph.edgeTriples = t.storage.activeTriples ↔
      (Cycle.sampleReport [.Supersede 2 1]).Undisturbed Sample.engine.storage.toTables) := by
  have ends : Ends (Cycle.sampleRun [.Supersede 2 1]) Sample.engine (fun _ _ => true) = true := by decide +kernel
  obtain ⟨result,t,applied,_⟩ := commits_of_ends ends
  exact ⟨result,t,applied,apply_cycle_report_mirrors_iff (by decide +kernel) applied⟩

/-- Superseding the first fact leaves its edge to the third active in the store
    and drops it from the graph. -/
theorem superseded_edge_stays_active : ¬ ∀ (ctx : MemoryCtx) (codec : HistoryCodec) (report : CycleReport) (now : DateTime)
    (s t : Engine) (result : ApplyResult), s.graph.edgeTriples = s.storage.activeTriples →
      Commits (apply_cycle_report ctx codec report now) s result t → t.graph.edgeTriples = t.storage.activeTriples := by
  intro claim
  have ends : Ends (Cycle.sampleRun [.Supersede 1 2]) Sample.engine
      (fun _ t => decide (t.graph.edgeTriples ≠ t.storage.activeTriples)) = true := by decide +kernel
  obtain ⟨result,t,applied,apart⟩ := commits_of_ends ends
  have mirrored : Sample.engine.graph.edgeTriples = Sample.engine.storage.activeTriples := by decide +kernel
  exact of_decide_eq_true apart (claim _ _ _ _ _ _ _ mirrored applied)

end MemoryEngine
