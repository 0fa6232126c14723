import MemoryEngine.RedactQuiet

/-! What the detectors recognise and what is replaced. Matches of a literal that overlap one
another, matches in what only looks like a placeholder, and hits that are partly in a span
of an earlier detector are what redaction leaves in part. -/

namespace MemoryEngine.Redact
open ByteText Intervals

variable {libraries : RedactLibraries}

/-- A placeholder of a rule stands between two positions. -/
def Genuine (text : Text) (start stop : Nat) : Prop :=
  ∃ rule ∈ RULES, ∃ a, Occurs (placeholder rule) text a ∧ start = size a ∧ stop = size a + size (placeholder rule)

/-- A match of a literal that counts, away from genuine placeholders. -/
structure Exposed (text : Text) (denylist : List Text) (literal a : Text) : Prop where
  listed : literal ∈ denylist
  long : DENYLIST_MIN_LEN ≤ size literal
  occurs : Occurs literal text a
  outside : ∀ start stop, Genuine text start stop → ¬ (size a < stop ∧ start < size a + size literal)

/-- What the detectors after the denylist report when each runs alone. -/
def ReportsAlone (libraries : RedactLibraries) (text : Text) (alone : List Span) : Prop :=
  detect_provider_prefix libraries text [] = some alone ∨ detect_url_credential text [] = some alone ∨
    alone = detect_email libraries text [] ∨ alone = detect_hex_in_context libraries text [] ∨ alone = detect_high_entropy libraries text []

def Alone (libraries : RedactLibraries) (text : Text) (denylist : List Text) (alone : List Span) : Prop :=
  detect_denylist text denylist [] = some alone ∨ ReportsAlone libraries text alone

/-- A byte is in a token that some detector reports alone. -/
def Recognised (libraries : RedactLibraries) (text : Text) (denylist : List Text) (p : Nat) : Prop :=
  ∃ alone, Alone libraries text denylist alone ∧ Covers Span.start Span.stop alone p

/-- Each token that a detector reports alone is apart from those of the detectors before it,
    or among them. -/
def HitsNest (libraries : RedactLibraries) (text : Text) (denylist : List Text) : Prop :=
  ∀ listed tokens urls, detect_denylist text denylist [] = some listed → detect_provider_prefix libraries text [] = some tokens →
    detect_url_credential text [] = some urls → Nested Span.start Span.stop []
      [listed,tokens,urls,detect_email libraries text [],detect_hex_in_context libraries text [],detect_high_entropy libraries text []]

/-- The text is redacted, and all of what is recognised is in spans that are replaced. -/
def Covered (libraries : RedactLibraries) (text : Text) (denylist : List Text) : Prop :=
  ∃ spans pieces last, collect_spans libraries text denylist = some spans ∧ Redacts libraries text denylist pieces last ∧ spans = laid 0 pieces ∧
    (∀ literal a, Exposed text denylist literal a →
      ∀ p, size a ≤ p → p < size a + size literal → Covers Span.start Span.stop spans p) ∧
    ∀ alone, ReportsAlone libraries text alone → ∀ token ∈ alone, Inside Span.start Span.stop spans token

/-- Nothing that is recognised reaches out of what was recognised before it. -/
structure Clear (libraries : RedactLibraries) (text : Text) (denylist : List Text) : Prop where
  narrow : ¬ WideSeparator text
  separate : ∀ literal a b, Exposed text denylist literal a → Occurs literal text b → size b < size a → size b + size literal ≤ size a
  genuine : ∀ placeholders, placeholder_spans text = some placeholders → ∀ literal a, Exposed text denylist literal a →
    range_overlaps placeholders (size a) (size a + size literal) = false
  nested : HitsNest libraries text denylist

/-- Every match of a literal begins within one that is found. -/
theorem literal_ranges_meet {text literal : Text} {placeholders ranges : List (Nat × Nat)} (long : DENYLIST_MIN_LEN ≤ size literal)
    (ran : literal_ranges text placeholders literal = some ranges) {a : Text} (occurs : Occurs literal text a) :
    ∃ b, Occurs literal text b ∧ size b ≤ size a ∧ size a < size b + size literal ∧
      (range_overlaps placeholders (size b) (size b + size literal) = false → (size b,size b + size literal) ∈ ranges) := by
  have solid : literal ≠ [] := by
    rintro rfl
    unfold DENYLIST_MIN_LEN at long
    simp at long
  unfold literal_ranges at ran
  rw [if_neg (by omega)] at ran
  have positive := size_pos solid
  obtain ⟨b,step,there,low,visited,members,last⟩ := scan_meets solid (fun b there => by
    obtain ⟨y,parts⟩ := there
    refine ⟨_,rfl,fun n next => ?_⟩
    cases next
    refine ⟨b ++ literal,y,by rw [parts,List.append_assoc],?_⟩
    rw [size_append]
    omega) ⟨[],text,rfl,rfl⟩ ran occurs (Nat.zero_le _)
  cases visited
  refine ⟨b,there,low,?_,fun free => members _ ?_⟩
  · rcases last with same | beyond
    · omega
    · have := beyond _ rfl
      omega
  · simp only [free]
    exact List.mem_cons_self

theorem covers_perm {xs ys : List Span} (perm : xs.Perm ys) (p : Nat) : Covers Span.start Span.stop xs p ↔ Covers Span.start Span.stop ys p := by
  simp only [Covers,perm.mem_iff]

/-- Together the spans that are replaced are all that is recognised, when hits nest. -/
theorem covers_collected {text : Text} {listed urls spans : List Span} (members : ∀ span, span ∈ urls ↔ UrlHit 0 text span) (marks : ∀ span ∈ listed, span.Marks text)
    (perm : spans.Perm ((listed :: signatureHits libraries text urls).flatten.foldl (fit Span.start Span.stop) []))
    (nested : Nested Span.start Span.stop [] ((listed :: signatureHits libraries text urls).map fun stage => stage.foldl (fit Span.start Span.stop) []))
    (p : Nat) : Covers Span.start Span.stop spans p ↔
      Covers Span.start Span.stop ((listed :: signatureHits libraries text urls).map fun stage => stage.foldl (fit Span.start Span.stop) []).flatten p := by
  rw [covers_perm perm]
  refine covers_stages (fun span member => ?_) (fun _ => Iff.rfl) nested p
  rw [List.nil_append,List.nil_append,List.flatten_cons,List.mem_append] at member
  rcases member with first | other
  · exact (marks span first).solid
  · exact (marks_signatureHits (fun span member => (members span).mp member) span other).solid

theorem alone_iff {text : Text} {denylist : List Text} {listed urls : List Span} (denied : denylist_hits text denylist = some listed)
    (visited : url_hits text = some urls) {reported : List Span} : Alone libraries text denylist reported ↔
      ∃ stage ∈ listed :: signatureHits libraries text urls, reported = stage.foldl (fit Span.start Span.stop) [] := by
  unfold Alone ReportsAlone detect_denylist detect_url_credential detect_email detect_hex_in_context detect_high_entropy signatureHits
  simp only [denied,visited,detect_provider_prefix_eq,push_eq,Option.pure_def,Option.bind_eq_bind,Option.bind_some,Option.some.injEq,
    List.exists_mem_cons_iff,List.not_mem_nil,false_and,exists_false,or_false,eq_comm (a := reported)]

theorem rule_of_walk {here : Text → Text → List Span} {rule : String} {text : Text} {span : Span} (found : span ∈ walk here [] text)
    (named : ∀ before rest, ∀ span ∈ here before rest, span.rule = rule) : span.rule = rule := by
  obtain ⟨a,c,b,_,hit⟩ := mem_walk.mp found
  exact named _ _ span hit

/-- Every hit has the name of a rule. -/
theorem rule_of_signature {text : Text} {urls : List Span} (visited : ∀ span ∈ urls, UrlHit 0 text span) :
    ∀ span ∈ (signatureHits libraries text urls).flatten, span.rule ∈ RULES := by
  intro span found
  simp only [signatureHits,List.flatten_cons,List.flatten_nil,List.append_nil,List.mem_append] at found
  rcases found with provider | url | email | hex | entropy
  · obtain ⟨p,listed,hit⟩ := List.mem_flatMap.mp provider
    refine List.mem_cons_of_mem _ (List.mem_append_left _ (List.mem_map.mpr ⟨p,listed,?_⟩))
    exact (rule_of_walk hit fun _ _ _ here => by rw [(provider_here_shape here).2]).symm
  · obtain ⟨_,_,_,_,_,_,_,_,rfl⟩ := visited span url
    exact (by decide : "connection-string-password" ∈ RULES)
  · have named : span.rule = "email" := rule_of_walk email fun _ _ _ here => by
      obtain ⟨_,_,_,_,_,rfl,_⟩ := email_here_shape here
      rfl
    rw [named]
    decide
  · rw [rule_of_walk hex fun _ _ _ here => by rw [(hex_here_shape here).2]]
    decide
  · rw [rule_of_walk entropy fun _ _ _ here => by rw [(entropy_here_shape here).2]]
    decide

/-- The spans that are replaced are together what the detectors report alone, when hits nest. -/
theorem collects_nested {text : Text} {denylist : List Text} (narrow : ¬ WideSeparator text) (nested : HitsNest libraries text denylist) :
    ∃ spans pieces last, collect_spans libraries text denylist = some spans ∧ InOrder text spans ∧ Redacts libraries text denylist pieces last ∧
      spans = laid 0 pieces ∧ (∀ span ∈ spans, span.rule ∈ RULES) ∧ ∀ p, Covers Span.start Span.stop spans p ↔
        Recognised libraries text denylist p := by
  obtain ⟨listed,urls,spans,denied,visited,members,collected,ordered,perm⟩ := collects narrow libraries denylist
  obtain ⟨_,_,_,_,_,denied',marks,_⟩ := denylist_hits_total text denylist
  cases denied.symm.trans denied'
  obtain ⟨pieces,last,redacts,places⟩ := redacts_of_spans collected ordered
  have provider : detect_provider_prefix libraries text [] = _ := detect_provider_prefix_eq text []
  have alone : detect_denylist text denylist [] = some (listed.foldl push []) := by
    unfold detect_denylist
    simp only [denied,Option.pure_def,Option.bind_eq_bind,Option.bind_some]
  have url : detect_url_credential text [] = some (urls.foldl push []) := by
    unfold detect_url_credential
    simp only [visited,Option.pure_def,Option.bind_eq_bind,Option.bind_some]
  have nest := nested _ _ _ alone provider url
  unfold detect_email detect_hex_in_context detect_high_entropy at nest
  rw [push_eq] at nest
  have rules : ∀ span ∈ spans, span.rule ∈ RULES := by
    intro span member
    have hit := (mem_foldl_fit (perm.mem_iff.mp member)).resolve_left List.not_mem_nil
    rw [List.flatten_cons,List.mem_append] at hit
    rcases hit with first | other
    · rw [(marks span first).2]
      exact List.mem_cons_self
    · exact rule_of_signature (fun span member => (members span).mp member) span other
  refine ⟨spans,pieces,last,collected,ordered,redacts,places,rules,fun p => ?_⟩
  unfold Recognised
  rw [covers_collected members (fun span member => (marks span member).1) perm nest]
  simp only [alone_iff denied visited]
  constructor
  · rintro ⟨token,member,inside⟩
    obtain ⟨_,listed,here⟩ := List.mem_flatten.mp member
    obtain ⟨stage,there,rfl⟩ := List.mem_map.mp listed
    exact ⟨_,⟨stage,there,rfl⟩,token,here,inside⟩
  · rintro ⟨_,⟨stage,there,rfl⟩,token,here,inside⟩
    exact ⟨token,List.mem_flatten.mpr ⟨_,List.mem_map.mpr ⟨stage,there,rfl⟩,here⟩,inside⟩

/-- A match of a literal that counts is taken out. -/
theorem denylist_covers {text literal : Text} {denylist : List Text} {placeholders ranges : List (Nat × Nat)} {hits : List Span}
    (listed : literal ∈ denylist) (denied : denylist_hits text denylist = some hits) (held : placeholder_spans text = some placeholders)
    (ran : literal_ranges text placeholders literal = some ranges) {r : Nat × Nat} (member : r ∈ ranges) {p : Nat} (low : r.1 ≤ p) (high : p < r.2) :
    Covers Span.start Span.stop hits p := by
  obtain ⟨placeholders',all,hits,held',matched,denied',_,_,covers⟩ := denylist_hits_total text denylist
  cases denied.symm.trans denied'
  cases held.symm.trans held'
  cases matched.symm.trans (literal_ranges_each text placeholders denylist)
  refine (covers p).mpr ⟨r,List.mem_flatten.mpr ⟨ranges,List.mem_map.mpr ⟨literal,listed,?_⟩,member⟩,low,high⟩
  rw [ran]
  rfl

/-- What is taken out for the denylist is in parts that are apart. -/
theorem denylist_fits {text : Text} {denylist : List Text} {hits : List Span} (denied : denylist_hits text denylist = some hits) :
    hits.foldl (fit Span.start Span.stop) [] = hits := by
  obtain ⟨_,_,_,_,_,denied',_,chain,_⟩ := denylist_hits_total text denylist
  cases denied.symm.trans denied'
  refine foldl_fit_of_pairwise (chain.imp fun follows meets => ?_)
  exact absurd meets.2 (not_lt.mpr follows)

theorem denylist_reports {text literal : Text} {denylist : List Text} {placeholders ranges : List (Nat × Nat)} (listed : literal ∈ denylist)
    (held : placeholder_spans text = some placeholders) (ran : literal_ranges text placeholders literal = some ranges) {r : Nat × Nat}
    (member : r ∈ ranges) {p : Nat} (low : r.1 ≤ p) (high : p < r.2) :
    Recognised libraries text denylist p := by
  obtain ⟨_,_,hits,_,_,denied,_⟩ := denylist_hits_total text denylist
  have alone : detect_denylist text denylist [] = some hits := by
    unfold detect_denylist
    simp only [denied,push_eq,denylist_fits denied,Option.pure_def,Option.bind_eq_bind,Option.bind_some]
  exact ⟨hits,Or.inl alone,denylist_covers listed denied held ran member low high⟩

/-- In a clear text all that is recognised is replaced. -/
theorem clear_text_covered (libraries : RedactLibraries) (text : Text) (denylist : List Text) (clear : Clear libraries text denylist) :
    Covered libraries text denylist := by
  obtain ⟨spans,pieces,last,collected,_,redacts,places,_,union⟩ := collects_nested clear.narrow clear.nested
  refine ⟨spans,pieces,last,collected,redacts,places,fun literal a exposed p low high => ?_,fun reported reports token member p low high => ?_⟩
  · obtain ⟨placeholders,held⟩ := placeholder_spans_total text
    obtain ⟨ranges,ran,_⟩ := literal_ranges_total text placeholders literal
    obtain ⟨b,there,before,reaches,counts⟩ := literal_ranges_meet exposed.long ran exposed.occurs
    -- the match that is found is this one
    have same : b = a := by
      refine there.unique exposed.occurs ?_
      by_contra different
      have := clear.separate literal a b exposed there (by omega)
      omega
    subst same
    exact (union p).mpr (denylist_reports exposed.listed held ran (counts (clear.genuine placeholders held literal b exposed)) low high)
  · exact (union p).mpr ⟨reported,Or.inr reports,token,member,low,high⟩

/-- An occurrence is a position with the needle after it. -/
theorem occurs_iff {needle text a : Text} : Occurs needle text a ↔
    ∃ n ≤ text.length, a = text.take n ∧ needle.isPrefixOf (text.drop n) = true := by
  constructor
  · rintro ⟨b,rfl⟩
    exact ⟨a.length,by rw [List.length_append]; omega,List.take_left.symm,by rw [List.drop_left]; exact List.isPrefixOf_iff_prefix.mpr ⟨b,rfl⟩⟩
  · rintro ⟨n,_,rfl,present⟩
    obtain ⟨b,rest⟩ := List.isPrefixOf_iff_prefix.mp present
    exact ⟨b,by rw [rest,List.take_append_drop]⟩

theorem clear_text_covered_sample : Covered .ascii "pw hunter2 to a@b.com".toList ["hunter2".toList] := by
  refine clear_text_covered .ascii _ _ ⟨fun wide => ?_,fun literal a b exposed there before => ?_,fun placeholders held literal a exposed => ?_,
    fun listed tokens urls denied provider url => ?_⟩
  · have none_ := (url_hits_total _).1 wide
    rw [show url_hits "pw hunter2 to a@b.com".toList = some [] by decide +kernel] at none_
    cases none_
  · have one : ∀ n ≤ "pw hunter2 to a@b.com".toList.length, "hunter2".toList.isPrefixOf ("pw hunter2 to a@b.com".toList.drop n) = true → n = 3 := by
      decide +kernel
    rw [List.mem_singleton.mp exposed.listed] at there
    have occurs := exposed.occurs
    rw [List.mem_singleton.mp exposed.listed] at occurs
    obtain ⟨n,le,rfl,present⟩ := occurs_iff.mp there
    obtain ⟨m,le',rfl,present'⟩ := occurs_iff.mp occurs
    rw [one n le present,one m le' present'] at before
    exact absurd before (lt_irrefl _)
  · rw [show placeholder_spans "pw hunter2 to a@b.com".toList = some [] by decide +kernel] at held
    cases held
    rfl
  · rw [show detect_denylist "pw hunter2 to a@b.com".toList ["hunter2".toList] [] = some [⟨3,10,"denylist"⟩] by decide +kernel] at denied
    rw [show detect_provider_prefix .ascii "pw hunter2 to a@b.com".toList [] = some [] by decide +kernel] at provider
    rw [show detect_url_credential "pw hunter2 to a@b.com".toList [] = some [] by decide +kernel] at url
    rw [show detect_email .ascii "pw hunter2 to a@b.com".toList [] = [⟨14,21,"email"⟩] by decide +kernel,
      show detect_hex_in_context .ascii "pw hunter2 to a@b.com".toList [] = [] by decide +kernel,
      show detect_high_entropy .ascii "pw hunter2 to a@b.com".toList [] = [] by decide +kernel]
    cases denied
    cases provider
    cases url
    have apart : ∀ x ∈ [(⟨14,21,"email"⟩ : Span)], Apart Span.start Span.stop [⟨3,10,"denylist"⟩] x := by decide
    have first : ∀ x ∈ [(⟨3,10,"denylist"⟩ : Span)], Apart Span.start Span.stop [] x := by decide
    exact ⟨fun x member => Or.inl (first x member),fun _ none_ => absurd none_ List.not_mem_nil,fun _ none_ => absurd none_ List.not_mem_nil,
      fun x member => Or.inl (apart x member),fun _ none_ => absurd none_ List.not_mem_nil,fun _ none_ => absurd none_ List.not_mem_nil,trivial⟩

theorem placeholder_size (rule : String) : 11 ≤ size (placeholder rule) := by
  have opening : size OPEN = 10 := by decide
  have closing : size [']'] = 1 := by decide
  rw [placeholder,size_append,size_append]
  omega

/-- The second of two matches that overlap is left in part. -/
theorem overlapping_match_left : ¬ ∀ libraries text denylist, Covered libraries text denylist := by
  intro covered
  obtain ⟨spans,_,_,collected,_,_,matches_,_⟩ := covered .ascii "ababab".toList ["abab".toList]
  rw [show collect_spans .ascii "ababab".toList ["abab".toList] = some [⟨0,4,"denylist"⟩] by decide +kernel] at collected
  cases collected
  have exposed : Exposed "ababab".toList ["abab".toList] "abab".toList "ab".toList := by
    refine ⟨List.mem_cons_self,by decide,⟨[],rfl⟩,?_⟩
    rintro start stop ⟨rule,_,a,⟨b,parts⟩,_⟩
    have whole := congrArg size parts
    rw [size_append,size_append,show size "ababab".toList = 6 by decide] at whole
    have := placeholder_size rule
    omega
  obtain ⟨span,member,_,high⟩ := matches_ _ _ exposed 4 (by decide) (by decide)
  rw [List.mem_singleton.mp member] at high
  exact absurd high (by decide)

end MemoryEngine.Redact
