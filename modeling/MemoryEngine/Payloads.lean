import MemoryEngine.AdjustRange
import MemoryEngine.ImportedFacts
import MemoryEngine.PublicWrites

/-! The payload cap over runs. Rows are inserted unmeasured; the check is up to the
caller. Promotions, whether requested or proposed by a cycle, and memory files are
inserted without one. -/

namespace MemoryEngine
open Time KeyedTable Transaction Ingest Importer

/-- The content and the serialized metadata are within the cap. -/
structure NewFact.Capped (backend : SqliteBackend) (fact : NewFact) : Prop where
  content : fact.content.utf8ByteSize ≤ MAX_PAYLOAD_BYTES
  metadata : (fact.metadata.pieces backend.float_text).sum ≤ MAX_PAYLOAD_BYTES

/-- The keys that a report merges into facts. -/
inductive CycleKeys : List (String × Json) → Prop where
  | mark (cycle_id : Nat) (now : DateTime) : CycleKeys (cycleMark cycle_id now)
  | quarantine (reason : String) (now : DateTime) :
    CycleKeys [("quarantine",Json.object [("reason",.str reason),("at",.str now.to_rfc3339)])]

/-- Metadata as it was given, with the keys that reports have merged in since. -/
def Annotated : Json → Json → Prop :=
  Relation.ReflTransGen fun metadata metadata' => ∃ fields, CycleKeys fields ∧ metadata' = FactStore.mergedMetadata metadata fields

/-- The row went in within the cap. -/
structure Fact.InsertedCapped (backend : SqliteBackend) (f : Fact) : Prop where
  content : f.content.utf8ByteSize ≤ MAX_PAYLOAD_BYTES
  metadata : ∃ given, (Json.pieces backend.float_text given).sum ≤ MAX_PAYLOAD_BYTES ∧ Annotated given f.metadata

namespace MemoryFile
variable (ctx : PrepareCtx) (file : MemoryFile)

/-- The body of the file and the metadata made for it fit the cap once they are redacted. -/
def Capped : Prop :=
  (∀ log content found, (ctx.cleanContent file.parsed.body log).2 = .ok (content,found) → content.utf8ByteSize ≤ MAX_PAYLOAD_BYTES) ∧
    ∀ log metadata found, (ctx.cleanMetadata (rawMetadata file) log).2 = .ok (metadata,found) →
      (metadata.pieces ctx.libraries.float_text).sum ≤ MAX_PAYLOAD_BYTES

end MemoryFile

/-- What no caller checks: the fact of a promotion with its provenance, the copy of an
    active fact that a report promotes, and the texts of a memory file. -/
def PublicWrite.Measured (self : SqliteBackend) (t : Tables) : PublicWrite → Prop
  | promote req now => (req.newFact now).Capped self
  | apply_cycle_report _ report now => ∀ fact_id provenance, .Promote fact_id provenance ∈ report.deltas →
      ∀ f ∈ t.facts.rows, f.id = fact_id → f.t_expired = none → (Cycle.promotedCopy f provenance now).Capped self
  | import_memory_file ctx file _ _ => MemoryFile.Capped ctx file
  | _ => True

namespace Payloads
variable {self : SqliteBackend} {n : FactId}

/-- Rows from an id on went in within the cap. -/
def cappedRule (self : SqliteBackend) (n : FactId) : RowRule where
  holds f := n ≤ f.id → f.InsertedCapped self
  carried f f' same holds beyond := by
    obtain ⟨content,metadata⟩ := holds (same.id ▸ beyond)
    exact ⟨same.content ▸ content,same.metadata ▸ metadata⟩

theorem admits_capped {fact : NewFact} (capped : fact.Capped self) : (cappedRule self n).Admits self fact :=
  fun _ _ _ _ => ⟨capped.content,fact.metadata,capped.metadata,.refl⟩

theorem raises_capped (importance : SqlReal) : (cappedRule self n).Raises importance := by
  intro f holds beyond
  obtain ⟨content,metadata⟩ := holds beyond
  exact ⟨content,metadata⟩

theorem merges_capped (id : FactId) {fields : List (String × Json)} (keys : CycleKeys fields) : (cappedRule self n).Merges id fields := by
  intro f _ holds beyond
  obtain ⟨content,given,fits,annotated⟩ := holds beyond
  exact ⟨content,given,fits,annotated.tail ⟨fields,keys,rfl⟩⟩

theorem check_new_fact_ok {fact : NewFact} {u : Unit} : check_new_fact self.float_text fact = .ok u ↔ fact.Capped self := by
  rw [check_new_fact,made_bind]
  constructor
  · rintro ⟨_,short,small⟩
    exact ⟨check_str_size_ok.mp short,(check_json_size_ok _ _ _).mp small⟩
  · rintro ⟨short,small⟩
    exact ⟨(),check_str_size_ok.mpr short,(check_json_size_ok _ _ _).mpr small⟩

/-- A request that is valid makes a fact within the cap. -/
theorem capped_of_valid {req : AddFactRequest} (valid : validate_add_fact_request self req = .ok ()) (embedding : Embedding) (scope_id : Int)
    (is_pinned : Bool) (now : DateTime) : (req.newFact embedding scope_id is_pinned now).Capped self := by
  obtain ⟨_,_,measured⟩ := made_bind.mp valid
  obtain ⟨_,short,small⟩ := made_bind.mp measured
  refine ⟨check_str_size_ok.mp short,?_⟩
  have given : (req.newFact embedding scope_id is_pinned now).metadata = (req.opts.bind AddFactOptions.metadata).getD (.obj []) := by
    cases opts : req.opts with
    | none => simp [AddFactRequest.newFact,AddFactRequest.options,opts]
    | some o => simp [AddFactRequest.newFact,AddFactRequest.options,opts]
  rw [given]
  cases stated : req.opts.bind AddFactOptions.metadata with
  | none => simp [Json.pieces,fieldPieces,MAX_PAYLOAD_BYTES]
  | some metadata =>
    rw [stated] at small
    exact (check_json_size_ok _ _ _).mp small

/-- Linking a fact to the marker leaves its texts alone. -/
theorem takes_capped {fact : NewFact} (capped : fact.Capped self) (marker_id : Option Int) :
    (cappedRule self n).Takes self (Bootstrap.linked marker_id fact) := by
  refine ⟨admits_capped ?_,fun importance _ => raises_capped importance⟩
  cases marker_id with
  | none => exact capped
  | some id => exact ⟨capped.content,capped.metadata⟩

theorem fits_capped {m t : Db} {write : PublicWrite} (issued : write.Issued self) (measured : write.Measured self m.toTables)
    (committed : Commits ((write.call self).run self) m () t) : write.Fits (cappedRule self n) self m.toTables := by
  cases write with
  | add_fact req embedding scope_id is_pinned fingerprint now => exact admits_capped (capped_of_valid issued _ _ _ _)
  | add_facts_batch entries embeddings classifier fingerprint now =>
    intro fact listed scope_id
    obtain ⟨x,among,rfl⟩ := List.mem_map.mp listed
    have entry : x.1.1 ∈ entries := (List.of_mem_zip (List.of_mem_zip among).1).1
    obtain ⟨content,metadata⟩ := capped_of_valid (issued _ entry) x.1.2 1 x.2 now
    exact admits_capped ⟨content,metadata⟩
  | promote req now => exact fun scope_id => admits_capped ⟨measured.content,measured.metadata⟩
  | resolve_conflict decision old_id new_fact now => exact fun _ => admits_capped (check_new_fact_ok.mp issued)
  | apply_cycle_report codec report now =>
    obtain ⟨pass,_,applied,_⟩ := commits_bind.mp committed
    have checked := Cycle.checked_of_report applied
    refine ⟨fun delta listed => ?_,fun id => merges_capped id (.mark _ _)⟩
    cases delta with
    | AddFact nf =>
      have new := checked _ listed nf rfl
      exact admits_capped ⟨new.content,new.metadata⟩
    | AdjustScore fact_id adjustment =>
      intro current f _ holds beyond
      obtain ⟨content,metadata⟩ := holds beyond
      exact ⟨content,metadata⟩
    | Quarantine fact_id reason => exact merges_capped fact_id (.quarantine _ _)
    | Promote fact_id provenance =>
      intro f member same active importance _
      obtain ⟨content,metadata⟩ := measured fact_id provenance listed f member same active
      exact admits_capped ⟨content,metadata⟩
    | TagOutcome fact_id outcome => trivial
    | Supersede old_id new_id => trivial
    | Synthesize sources nf =>
      have new := checked _ listed nf rfl
      exact admits_capped ⟨new.content,new.metadata⟩
  | import_session call session =>
    obtain ⟨serializer,scope_id,log,ran⟩ := issued
    intro prepared listed marker_id
    obtain ⟨_,_,content,metadata⟩ := (gives_session call.parsed log).2 session ran prepared listed
    exact takes_capped ⟨content,by rw [← serializer]; exact metadata⟩ marker_id
  | import_memory_file ctx file prepared fingerprint =>
    obtain ⟨serializer,log,ran⟩ := issued
    intro marker_id
    obtain ⟨_,_,⟨log₁,found,cleaned⟩,⟨log₂,found',cleaned'⟩⟩ := fromFile ran
    refine takes_capped ⟨measured.1 _ _ _ cleaned,?_⟩ marker_id
    rw [← serializer]
    exact measured.2 _ _ _ cleaned'
  | consolidate run snapshot plan => trivial
  | routine call => trivial

end Payloads

/-- As long as promotions and memory files are within the cap when they are written, every
    row that a run inserts went in within the cap. The rows the run starts with, restored or
    not, are left out. -/
theorem inserted_capped {self : SqliteBackend} {s t : Db} (run : Written self (fun m write => write.Measured self m.toTables) s t) :
    ∀ f ∈ t.facts.rows, s.facts.nextId ≤ f.id → f.InsertedCapped self := by
  have start : (Payloads.cappedRule self s.facts.nextId).Of s.toTables := by
    intro f member beyond
    have below : f.id < s.facts.nextId := Int.lt_add_one_of_le (s.facts.allocated f member)
    exact absurd beyond (not_le.mpr below)
  exact run.keeps (fun _ _ _ issued measured committed => Payloads.fits_capped issued measured committed) start

namespace Payloads.Sample
open MemoryEngine.Sample

/-- A request to promote a text out of the first sample fact. -/
def request (content : String) : PromoteRequest :=
  ⟨content,.Semantic,[0x3F000000],F64.ofRat (1 / 2),.obj [],none,[1],⟨1,0,moment,moment,F64.ofRat 1,"m",[]⟩⟩

def promotion (content : String) : PublicWrite := .promote (request content) moment

/-- A text of one letter over and over. -/
def long : Nat → String
  | 0 => ""
  | n + 1 => (long n).push 'a'

theorem long_size (n : Nat) : (long n).utf8ByteSize = n := by
  induction n with
  | zero => rfl
  | succ n ih =>
    have one : 'a'.utf8Size = 1 := by decide
    rw [long,String.utf8ByteSize_push,ih,one]

/-- The fact that is inserted for it. -/
def wisdom (content : String) : NewFact := { (request content).newFact moment with scope_id := 1 }

/-- A promotion commits whatever its content is. -/
theorem promotion_commits (content : String) : ∃ t : Db, Commits (((promotion content).call backend).run backend) identified () t ∧
    ∃ f ∈ t.facts.rows, identified.facts.nextId ≤ f.id ∧ f.content = content := by
  have root : identified.scopes.Has 1 := by decide +kernel
  have source : identified.facts.Has 1 := by decide +kernel
  have number : F64.ofRat (1 / 2) ≠ .nan := by decide +kernel
  have stored : FactStore.Referenced identified.toTables (wisdom content) := ⟨root,fun e none_ => by cases none_⟩
  have storable : (wisdom content).embedding.length = backend.embed_dim ∧ (wisdom content).base_importance ≠ .nan ∧
    FactStore.Referenced identified.toTables (wisdom content) := ⟨rfl,number,stored⟩
  obtain ⟨id,m,inserted⟩ := FactStore.insert_commits_iff.mpr storable
  obtain ⟨_,importance,_,new,written⟩ := FactStore.commits_insert.mp inserted
  have inside : ∀ f, f ∈ m.facts.rows ↔ f ∈ identified.facts.rows ∨ f = FactStore.newRow backend (wisdom content) importance identified.facts.nextId := by
    intro f
    rw [written]
    change f ∈ (identified.facts.insert (FactStore.newRow backend (wisdom content) importance) (FactStore.newRow_key backend (wisdom content)
      importance)).rows ↔ _
    exact Table.mem_insert
  have row := (inside _).mpr (.inr rfl)
  have first : ∀ l ∈ m.lineage.rows, l.wisdom_fact_id ≠ id := by
    rw [new,FactStore.leaves_insert Tables.lineage backend (fun _ _ => rfl) _ identified id m inserted]
    exact Cycle.lineage_ne_nextId identified
  have kept : m.facts.Has 1 := by
    obtain ⟨f,member,same⟩ := source
    exact ⟨f,(inside f).mpr (.inl member),same⟩
  obtain ⟨lineage_id,t,recorded⟩ := LineageStore.insert_commits ⟨id,[1]⟩ (request content).provenance ⟨_,row,new.symm,rfl⟩
    (List.forall_mem_singleton.mpr kept) first
  refine ⟨t,commits_void (a := (⟨id,lineage_id⟩,[])) ?_,FactStore.newRow backend (wisdom content) importance identified.facts.nextId,?_,le_refl _,rfl⟩
  · refine commits_bind.mpr ⟨(),identified,EmbeddingMeta.commits_require_present.mpr ⟨identified_identity,rfl⟩,?_⟩
    refine commits_bind.mpr ⟨(1,[]),identified,commits_pure.mpr ⟨rfl,rfl⟩,?_⟩
    exact commits_bind.mpr ⟨id,m,inserted,commits_bind.mpr ⟨lineage_id,t,recorded,commits_pure.mpr ⟨rfl,rfl⟩⟩⟩
  · rw [LineageStore.leaves_insert Tables.facts (fun _ _ => rfl) _ _ _ _ _ recorded]
    exact row

end Payloads.Sample

theorem inserted_capped_sample : ∃ t : Db, ∃ f ∈ t.facts.rows, Sample.identified.facts.nextId ≤ f.id ∧ f.InsertedCapped Sample.backend := by
  obtain ⟨t,committed,f,member,new,_⟩ := Payloads.Sample.promotion_commits "d"
  have measured : (Payloads.Sample.promotion "d").Measured Sample.backend Sample.identified.toTables := ⟨by decide,by decide +kernel⟩
  have issued : (Payloads.Sample.promotion "d").Issued Sample.backend := trivial
  have run : Written Sample.backend (fun m write => write.Measured Sample.backend m.toTables) Sample.identified t :=
    .one issued measured committed
  exact ⟨t,f,member,new,inserted_capped run f member new⟩

/-- Nobody measures the content of a promotion. -/
theorem promotion_unmeasured : ¬ ∀ (self : SqliteBackend) (s t : Db), Written self (fun _ _ => True) s t →
    ∀ f ∈ t.facts.rows, s.facts.nextId ≤ f.id → f.InsertedCapped self := by
  intro always
  obtain ⟨t,committed,f,member,new,content⟩ := Payloads.Sample.promotion_commits (Payloads.Sample.long (MAX_PAYLOAD_BYTES + 1))
  have issued : (Payloads.Sample.promotion (Payloads.Sample.long (MAX_PAYLOAD_BYTES + 1))).Issued Sample.backend := trivial
  have run : Written Sample.backend (fun _ _ => True) Sample.identified t := .one issued trivial committed
  have capped := (always Sample.backend Sample.identified t run f member new).content
  rw [content,Payloads.Sample.long_size] at capped
  exact absurd capped (Nat.not_succ_le_self _)

end MemoryEngine
