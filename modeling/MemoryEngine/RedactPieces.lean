import MemoryEngine.RedactSpans

/-! The text that redaction leaves, piece by piece: what is kept, with a placeholder for
each token that is taken out. -/

namespace MemoryEngine.Redact
open ByteText

variable {libraries : RedactLibraries}

theorem push_eq : push = Intervals.fit Span.start Span.stop := by
  funext spans span
  unfold push Intervals.fit
  by_cases apart : Intervals.Apart Span.start Span.stop spans span
  · have free : ¬ overlaps spans span.start span.stop = true := by
      simp only [overlaps,List.any_eq_true,Bool.and_eq_true,decide_eq_true_eq,not_exists,not_and]
      exact fun s member early late => apart s member ⟨early,late⟩
    rw [if_neg free,if_pos apart]
  · have meets : overlaps spans span.start span.stop = true := by
      simp only [overlaps,List.any_eq_true,Bool.and_eq_true,decide_eq_true_eq]
      by_contra free
      exact apart fun s member meet => free ⟨s,member,meet⟩
    rw [if_pos meets,if_neg apart]

/-- The hits of the other detectors, one detector after another. -/
def signatureHits (libraries : RedactLibraries) (text : Text) (urls : List Span) : List (List Span) :=
  [providerHits libraries text,urls,walk (email_here libraries) [] text,walk (hex_here libraries) [] text,walk (entropy_here libraries) [] text]

theorem collect_spans_eq {text : Text} {denylist : List Text} {listed urls : List Span} (denied : denylist_hits text denylist = some listed)
    (visited : url_hits text = some urls) : collect_spans libraries text denylist =
      some (((listed :: signatureHits libraries text urls).flatten.foldl push []).insertionSort fun a b => a.start ≤ b.start) := by
  unfold collect_spans detect_denylist detect_url_credential detect_email detect_hex_in_context detect_high_entropy signatureHits
  simp only [denied,visited,detect_provider_prefix_eq,Option.pure_def,Option.bind_eq_bind,Option.bind_some,List.flatten_cons,List.flatten_nil,
    List.foldl_append,List.foldl_nil]

theorem url_hit_marks {text : Text} {span : Span} (hit : UrlHit 0 text span) : span.Marks text := by
  obtain ⟨before,authority,after,user,secret,host,visits,credential,rfl⟩ := hit
  have single : ':'.utf8Size = 1 := by decide
  refine ⟨before ++ (user ++ [':']),secret,'@' :: (host ++ after),?_,credential.some_,?_,?_⟩
  · rw [visits.parts,credential.parts]
    simp only [List.append_assoc,List.cons_append,List.nil_append]
  all_goals
    simp only [passwordSpan,size_append,size_cons,size_nil]
    omega

theorem marks_signatureHits {text : Text} {urls : List Span} (visited : ∀ span ∈ urls, UrlHit 0 text span) :
    ∀ span ∈ (signatureHits libraries text urls).flatten, span.Marks text := by
  intro span found
  simp only [signatureHits,List.flatten_cons,List.flatten_nil,List.append_nil,List.mem_append] at found
  rcases found with provider | url | email | hex | entropy
  · exact marks_providerHits span provider
  · exact url_hit_marks (visited span url)
  · exact marks_walk marks_email_here span email
  · exact marks_walk marks_hex_here span hex
  · exact marks_walk marks_entropy_here span entropy

/-- Spans in the order of a text, each a part of it, none into the next. -/
structure InOrder (text : Text) (spans : List Span) : Prop where
  marks : ∀ span ∈ spans, span.Marks text
  chain : spans.Pairwise fun s t => s.stop ≤ t.start

/-- The spans that are collected, in order, and what they are made of. -/
theorem collect_spans_total {text : Text} {denylist : List Text} {listed urls : List Span} (denied : denylist_hits text denylist = some listed)
    (visited : url_hits text = some urls) (marks : ∀ span ∈ (listed :: signatureHits libraries text urls).flatten, span.Marks text) :
    ∃ spans, collect_spans libraries text denylist = some spans ∧ InOrder text spans ∧
      spans.Perm ((listed :: signatureHits libraries text urls).flatten.foldl (Intervals.fit Span.start Span.stop) []) := by
  refine ⟨_,collect_spans_eq denied visited,?_⟩
  rw [push_eq]
  have perm := List.perm_insertionSort (fun a b : Span => a.start ≤ b.start)
    ((listed :: signatureHits libraries text urls).flatten.foldl (Intervals.fit Span.start Span.stop) [])
  have marks' : ∀ span ∈ (listed :: signatureHits libraries text urls).flatten.foldl (Intervals.fit Span.start Span.stop) [], span.Marks text :=
    fun span member => marks span ((Intervals.mem_foldl_fit member).resolve_left List.not_mem_nil)
  refine ⟨⟨fun span member => marks' span (perm.mem_iff.mp member),?_⟩,perm⟩
  refine Intervals.chain_of_sorted (fun span member => (marks' span (perm.mem_iff.mp member)).solid) ?_ ?_
  · exact (perm.pairwise_iff fun apart meets => apart meets.symm).mpr (Intervals.pairwise_foldl_fit List.Pairwise.nil _)
  · have : Std.Total fun a b : Span => a.start ≤ b.start := ⟨fun a b => le_total _ _⟩
    have : IsTrans Span fun a b => a.start ≤ b.start := ⟨fun a b c => le_trans⟩
    exact List.pairwise_insertionSort _ _

/-! ## Pieces -/

/-- Kept pieces with what stands between them, and the last piece. -/
def weave (filling : Finding → Text) (pieces : List (Text × Finding)) (last : Text) : Text :=
  pieces.foldr (fun piece rest => piece.1 ++ (filling piece.2 ++ rest)) last

@[simp] theorem weave_nil (filling : Finding → Text) (last : Text) : weave filling [] last = last := rfl
@[simp] theorem weave_cons (filling : Finding → Text) (kept : Text) (f : Finding) (pieces : List (Text × Finding)) (last : Text) :
    weave filling ((kept,f) :: pieces) last = kept ++ (filling f ++ weave filling pieces last) := rfl

/-- Where the tokens stand. -/
def laid : Nat → List (Text × Finding) → List Span
  | _,[] => []
  | n,(kept,f) :: pieces => ⟨n + size kept,n + size kept + size f.token,f.rule⟩ :: laid (n + size kept + size f.token) pieces

/-- The text is rebuilt with a placeholder for each span. -/
theorem rebuild_pieces {text : Text} {spans : List Span} (ordered : InOrder text spans) {a rest : Text} (parts : text = a ++ rest)
    (ahead : ∀ span ∈ spans, size a ≤ span.start) : ∃ pieces last, rest = weave Finding.token pieces last ∧ spans = laid (size a) pieces ∧
      rebuild text spans (size a) = some (weave (fun f => placeholder f.rule) pieces last,pieces.map Prod.snd) := by
  induction spans generalizing a rest with
  | nil =>
    refine ⟨[],rest,rfl,rfl,?_⟩
    subst parts
    rw [rebuild,sliceFrom_append]
    rfl
  | cons span spans ih =>
    obtain ⟨x,token,b,whole,some_,start,stop⟩ := ordered.marks span List.mem_cons_self
    obtain ⟨follows,chain⟩ := List.pairwise_cons.mp ordered.chain
    obtain ⟨kept,rfl,rfl⟩ := split_before (parts.symm.trans whole) (start ▸ ahead span List.mem_cons_self)
    have along : text = (a ++ (kept ++ token)) ++ b := by rw [whole]; simp only [List.append_assoc]
    have stop' : span.stop = size (a ++ (kept ++ token)) := by
      rw [stop]
      simp only [size_append,Nat.add_assoc]
    obtain ⟨pieces,last,tail,places,rebuilt⟩ := ih ⟨fun s member => ordered.marks s (List.mem_cons_of_mem _ member),chain⟩ along
      fun s member => stop' ▸ follows s member
    have start' : span.start = size a + size kept := by rw [start,size_append]
    have first : slice text (size a) span.start = some kept := slice_iff.mpr ⟨a,token ++ b,parts,rfl,start'⟩
    have second : slice text span.start span.stop = some token := slice_iff.mpr ⟨a ++ kept,b,whole,start,by rw [stop,start]⟩
    refine ⟨(kept,⟨span.rule,token⟩) :: pieces,last,?_,?_,?_⟩
    · rw [weave_cons,tail]
    · have last' : size a + size kept + size token = size (a ++ (kept ++ token)) := by
        simp only [size_append,Nat.add_assoc]
      rw [laid,last',← places,← start',← stop']
    · rw [rebuild,first,second]
      simp only [Option.pure_def,Option.bind_eq_bind,Option.bind_some]
      rw [stop',rebuilt]
      rfl

/-- The redacted text is the text with placeholders for tokens, and the tokens are returned. -/
def Redacts (libraries : RedactLibraries) (text : Text) (denylist : List Text) (pieces : List (Text × Finding)) (last : Text) : Prop :=
  text = weave Finding.token pieces last ∧
    redact_text_with_denylist libraries text denylist = some (weave (fun f => placeholder f.rule) pieces last,pieces.map Prod.snd)

theorem redacts_of_spans {text : Text} {denylist : List Text} {spans : List Span} (collected : collect_spans libraries text denylist = some spans)
    (ordered : InOrder text spans) : ∃ pieces last, Redacts libraries text denylist pieces last ∧ spans = laid 0 pieces := by
  obtain ⟨pieces,last,parts,places,rebuilt⟩ := rebuild_pieces ordered (List.nil_append text).symm fun span _ => Nat.zero_le _
  refine ⟨pieces,last,⟨parts,?_⟩,places⟩
  unfold redact_text_with_denylist
  simp only [collected,Option.bind_eq_bind,Option.bind_some]
  exact rebuilt

/-- Without a wide separator every detector ends. -/
theorem collects {text : Text} (narrow : ¬ WideSeparator text) (libraries : RedactLibraries) (denylist : List Text) :
    ∃ listed urls spans, denylist_hits text denylist = some listed ∧ url_hits text = some urls ∧ (∀ span, span ∈ urls ↔ UrlHit 0 text span) ∧
      collect_spans libraries text denylist = some spans ∧ InOrder text spans ∧
        spans.Perm ((listed :: signatureHits libraries text urls).flatten.foldl (Intervals.fit Span.start Span.stop) []) := by
  obtain ⟨_,_,listed,_,_,denied,marks,_⟩ := denylist_hits_total text denylist
  obtain ⟨urls,visited,hits⟩ := (url_hits_total text).2 narrow
  have all : ∀ span ∈ (listed :: signatureHits libraries text urls).flatten, span.Marks text := by
    intro span member
    rw [List.flatten_cons,List.mem_append] at member
    rcases member with first | other
    · exact (marks span first).1
    · exact marks_signatureHits (fun span member => (hits span).mp member) span other
  obtain ⟨spans,collected,ordered,perm⟩ := collect_spans_total denied visited all
  exact ⟨listed,urls,spans,denied,visited,hits,collected,ordered,perm⟩

theorem collects_none {text : Text} (wide : WideSeparator text) (libraries : RedactLibraries) (denylist : List Text) :
    collect_spans libraries text denylist = none := by
  obtain ⟨_,_,listed,_,_,denied,_⟩ := denylist_hits_total text denylist
  unfold collect_spans detect_denylist detect_url_credential
  simp only [denied,detect_provider_prefix_eq,(url_hits_total text).1 wide,Option.pure_def,Option.bind_eq_bind,Option.bind_some,Option.bind_none]

/-- Redaction ends with the pieces of its text exactly when no visited URL ends at a wide
    separator. -/
theorem redact_text_pieces (libraries : RedactLibraries) (text : Text) (denylist : List Text) :
    (∃ pieces last, Redacts libraries text denylist pieces last) ↔ ¬ WideSeparator text := by
  constructor
  · rintro ⟨pieces,last,_,redacted⟩ wide
    unfold redact_text_with_denylist at redacted
    rw [collects_none wide] at redacted
    cases redacted
  · intro narrow
    obtain ⟨_,_,spans,_,_,_,collected,ordered,_⟩ := collects narrow libraries denylist
    obtain ⟨pieces,last,redacts,_⟩ := redacts_of_spans collected ordered
    exact ⟨pieces,last,redacts⟩

/-- Libraries for texts of ASCII. -/
def RedactLibraries.ascii : RedactLibraries := ⟨Char.isAlphanum,fun _ _ => F64.ofRat 0,Ranking.Shuffle.keep _⟩

/-- An ideographic space after a host. -/
theorem redact_text_panics : ¬ ∀ libraries text denylist, ∃ pieces last, Redacts libraries text denylist pieces last := by
  intro total
  obtain ⟨_,_,_,redacted⟩ := total .ascii "http://a\u3000b".toList []
  rw [show redact_text_with_denylist .ascii "http://a\u3000b".toList [] = none by decide +kernel] at redacted
  cases redacted

end MemoryEngine.Redact
