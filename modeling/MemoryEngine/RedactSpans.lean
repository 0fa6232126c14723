import Mathlib.Data.List.TakeWhile
import MemoryEngine.Intervals
import MemoryEngine.Redact

/-! What each detector finds, said of the text alone: the loops come to an end and every
slice stands between characters, but for the scan of URLs after a wide separator. -/

namespace MemoryEngine.Redact
open ByteText

variable {libraries : RedactLibraries}

/-- A span marks a part of the text that is not empty. -/
def Span.Marks (span : Span) (text : Text) : Prop :=
  ∃ a token b, text = a ++ (token ++ b) ∧ token ≠ [] ∧ span.start = size a ∧ span.stop = size a + size token

theorem Span.Marks.solid {span : Span} {text : Text} (marks : span.Marks text) : span.start < span.stop := by
  obtain ⟨a,token,b,_,some_,start,stop⟩ := marks
  have := size_pos some_
  omega

/-! ## Tokens of providers -/

/-- Nothing goes before, or a character that ends a word. -/
def precedes (before : Text) : Bool := before.head?.all fun ch => is_whitespace ch || PREFIX_BOUNDARY_CHARS.contains ch

def dropCr (line : Text) : Text := if line.getLast? = some '\r' then line.dropLast else line

/-- The token that begins with a prefix. -/
def captured (libraries : RedactLibraries) (needle : String) (rest : Text) : Text :=
  if needle = "-----BEGIN" then dropCr (rest.takeWhile (· != '\n'))
  else needle.toList ++ (rest.drop needle.toList.length).takeWhile (isTokenBody libraries)

/-- The hit of a prefix where it stands. -/
def provider_here (libraries : RedactLibraries) (rule needle : String) (before rest : Text) : List Span :=
  if needle.toList <+: rest ∧ precedes before = true ∧ tooPlain needle (captured libraries needle rest) = false then
    [⟨size before,size before + size (captured libraries needle rest),rule⟩]
  else []

theorem is_prefix_boundary_eq (a rest : Text) : is_prefix_boundary (a ++ rest) (size a) = some (precedes a.reverse) := by
  unfold is_prefix_boundary precedes
  by_cases start : size a = 0
  · have nothing : a = [] := by
      by_contra more
      have := size_pos more
      omega
    rw [if_pos start,nothing]
    rfl
  · rw [if_neg start,sliceTo_append,List.head?_reverse]
    simp only [Option.pure_def,Option.bind_eq_bind,Option.bind_some]
    cases a.getLast? <;> rfl

theorem dropCr_prefix (line : Text) : dropCr line <+: line := by
  unfold dropCr
  by_cases cr : line.getLast? = some '\r'
  · rw [if_pos cr]
    exact List.dropLast_prefix line
  · rw [if_neg cr]

theorem line_end_eq (rest : Text) : line_end rest = some (size (dropCr (rest.takeWhile (· != '\n')))) := by
  have whole : sliceTo rest (size (rest.takeWhile (· != '\n'))) = some (rest.takeWhile (· != '\n')) := by
    refine sliceTo_iff.mpr ⟨rest.dropWhile (· != '\n'),?_,rfl⟩
    exact List.takeWhile_append_dropWhile.symm
  have stop : (find ['\n'] rest).getD (size rest) = size (rest.takeWhile (· != '\n')) := by
    rw [find_singleton,findChar_getD]
    rfl
  unfold line_end dropCr
  simp only [stop,whole,Option.pure_def,Option.bind_eq_bind,Option.bind_some]
  by_cases cr : (rest.takeWhile (· != '\n')).getLast? = some '\r'
  · obtain ⟨line,split⟩ := List.getLast?_eq_some_iff.mp cr
    have positive : 0 < size (line ++ ['\r']) := size_pos (List.append_ne_nil_of_right_ne_nil line (List.cons_ne_nil _ _))
    rw [split,if_pos (by simpa using positive),if_pos List.getLast?_concat,List.dropLast_concat,size_append]
    rfl
  · rw [if_neg (by simp [cr]),if_neg cr]

theorem captured_prefix {needle : String} {rest : Text} (present : needle.toList <+: rest) : captured libraries needle rest <+: rest := by
  unfold captured
  by_cases key : needle = "-----BEGIN"
  · rw [if_pos key]
    exact ( dropCr_prefix _).trans (List.takeWhile_prefix _)
  · rw [if_neg key]
    obtain ⟨tail,rfl⟩ := present
    rw [List.drop_left]
    exact (List.prefix_append_right_inj _).mpr (List.takeWhile_prefix _)

theorem match_end_eq (a : Text) {needle : String} {rest : Text} (present : needle.toList <+: rest) :
    match_end libraries (a ++ rest) needle (size a) = some (size a + size (captured libraries needle rest)) := by
  unfold match_end captured
  by_cases key : needle = "-----BEGIN"
  · rw [if_pos key,if_pos key,sliceFrom_append]
    simp only [Option.pure_def,Option.bind_eq_bind,Option.bind_some,line_end_eq]
  · obtain ⟨tail,rfl⟩ := present
    have body : sliceFrom (a ++ (needle.toList ++ tail)) (size a + size needle.toList) = some tail := by
      rw [← List.append_assoc,← size_append]
      exact sliceFrom_append _ _
    rw [if_neg key,if_neg key,List.drop_left]
    simp only [body,Option.pure_def,Option.bind_eq_bind,Option.bind_some,size_append]
    rw [Nat.add_assoc]

theorem captured_ne_nil {needle : String} (some_ : needle.toList ≠ []) {rest : Text} (present : needle.toList <+: rest) :
    captured libraries needle rest ≠ [] := by
  unfold captured
  by_cases key : needle = "-----BEGIN"
  · obtain ⟨tail,rfl⟩ := present
    subst key
    rw [if_pos rfl,List.takeWhile_append_of_pos (by simp)]
    unfold dropCr
    by_cases cr : ("-----BEGIN".toList ++ tail.takeWhile (· != '\n')).getLast? = some '\r'
    · rw [if_pos cr]
      exact List.cons_ne_nil _ _
    · rw [if_neg cr]
      exact List.cons_ne_nil _ _
  · rw [if_neg key]
    exact List.append_ne_nil_of_left_ne_nil some_ _

theorem provider_hits_eq (rule : String) {needle : String} {c₀ : Char} {tail : Text} (begins : needle.toList = c₀ :: tail)
    (single : c₀.utf8Size = 1) (text : Text) :
    provider_hits libraries text rule needle = some (walk (provider_here libraries rule needle) [] text) := by
  unfold provider_hits
  rw [begins]
  refine scan_walk (a := []) single (fun before rest absent => ?_) (fun a rest parts present => ?_) (List.nil_append text).symm
    (Nat.lt_succ_of_le (length_le_size text))
  · rw [provider_here,begins,if_neg fun here => absent here.1]
  · rw [← begins] at present
    have part : slice (a ++ rest) (size a) (size a + size (captured libraries needle rest)) = some (captured libraries needle rest) := by
      obtain ⟨b,whole⟩ : captured libraries needle rest <+: rest := captured_prefix present
      exact slice_iff.mpr ⟨a,b,by rw [whole],rfl,rfl⟩
    subst parts
    rw [is_prefix_boundary_eq,provider_here]
    simp only [Option.pure_def,Option.bind_eq_bind,Option.bind_some,match_end_eq a present,part]
    by_cases bounded : precedes a.reverse = true
    · by_cases plain : tooPlain needle (captured libraries needle rest) = true
      · simp [bounded,plain]
      · simp [bounded,plain,present]
    · simp [bounded]

/-- The prefixes begin with a character of one byte. -/
theorem secret_prefixes_begin : ∀ p ∈ SECRET_PREFIXES, ∃ c₀ tail, p.2.toList = c₀ :: tail ∧ c₀.utf8Size = 1 := by
  intro p listed
  simp only [SECRET_PREFIXES,List.mem_cons,List.not_mem_nil,or_false] at listed
  rcases listed with rfl | rfl | rfl | rfl | rfl | rfl | rfl | rfl | rfl | rfl <;> exact ⟨_,_,rfl,by decide⟩

theorem mapM_some {α β : Type} {f : α → Option β} {g : α → β} {l : List α} (each : ∀ x ∈ l, f x = some (g x)) :
    l.mapM f = some (l.map g) := by
  induction l with
  | nil => rfl
  | cons x l ih =>
    rw [List.mapM_cons,each x List.mem_cons_self,ih fun y member => each y (List.mem_cons_of_mem _ member)]
    rfl

/-- What all prefixes find. -/
def providerHits (libraries : RedactLibraries) (text : Text) : List Span :=
  SECRET_PREFIXES.flatMap fun p => walk (provider_here libraries p.1 p.2) [] text

theorem detect_provider_prefix_eq (text : Text) (spans : List Span) :
    detect_provider_prefix libraries text spans = some ((providerHits libraries text).foldl push spans) := by
  have found : SECRET_PREFIXES.mapM (fun p => provider_hits libraries text p.1 p.2) =
      some (SECRET_PREFIXES.map fun p => walk (provider_here libraries p.1 p.2) [] text) := by
    refine mapM_some fun p listed => ?_
    obtain ⟨c₀,tail,begins,single⟩ := secret_prefixes_begin p listed
    exact provider_hits_eq p.1 begins single text
  unfold detect_provider_prefix providerHits
  rw [found,List.flatMap_def]
  rfl

/-! ## Hits mark parts of the text -/

/-- A detector that looks at a position marks a part of the text around it. -/
def MarksHere (here : Text → Text → List Span) : Prop :=
  ∀ before rest, ∀ span ∈ here before rest, span.Marks (before.reverse ++ rest)

theorem marks_walk {here : Text → Text → List Span} (marks : MarksHere here) {text : Text} : ∀ span ∈ walk here [] text, span.Marks text := by
  intro span found
  obtain ⟨a,c,b,rfl,hit⟩ := mem_walk.mp found
  have := marks _ _ span hit
  rwa [List.append_nil,List.reverse_reverse] at this

/-- A part of the text from a position on. -/
theorem marks_from {before rest token : Text} (some_ : token ≠ []) (part : token <+: rest) (rule : String) :
    Span.Marks ⟨size before,size before + size token,rule⟩ (before.reverse ++ rest) := by
  obtain ⟨b,rfl⟩ := part
  exact ⟨before.reverse,token,b,rfl,some_,by simp,by simp⟩

/-- The token at a prefix. -/
theorem provider_here_shape {rule needle : String} {before rest : Text} {span : Span} (hit : span ∈ provider_here libraries rule needle before rest) :
    needle.toList <+: rest ∧ span = ⟨size before,size before + size (captured libraries needle rest),rule⟩ := by
  unfold provider_here at hit
  by_cases found : needle.toList <+: rest ∧ precedes before = true ∧ tooPlain needle (captured libraries needle rest) = false
  · rw [if_pos found] at hit
    exact ⟨found.1,List.mem_singleton.mp hit⟩
  · rw [if_neg found] at hit
    cases hit

theorem marks_provider_here {rule needle : String} (some_ : needle.toList ≠ []) : MarksHere (provider_here libraries rule needle) := by
  intro before rest span hit
  obtain ⟨present,rfl⟩ := provider_here_shape hit
  exact marks_from (captured_ne_nil some_ present) ( captured_prefix present) rule

/-- The address around an at sign. -/
theorem email_here_shape {before rest : Text} {span : Span} (hit : span ∈ email_here libraries before rest) :
    ∃ a user host b, before.reverse ++ rest = a ++ ((user ++ '@' :: host) ++ b) ∧ span = ⟨size a,size a + size (user ++ '@' :: host),"email"⟩ ∧
      (∀ c ∈ user, is_email_local libraries c = true) ∧ ∀ c ∈ host, is_email_domain libraries c = true := by
  unfold email_here at hit
  split at hit
  · rename_i after
    by_cases plain : ((before.takeWhile (is_email_local libraries)).isEmpty ||
        !validDomain (after.takeWhile (is_email_domain libraries))) = true
    · rw [if_pos plain] at hit
      cases hit
    · rw [if_neg plain] at hit
      rw [List.mem_singleton.mp hit]
      have sides : before = before.takeWhile (is_email_local libraries) ++ before.dropWhile (is_email_local libraries) :=
        List.takeWhile_append_dropWhile.symm
      have sizes := congrArg size sides
      rw [size_append] at sizes
      have single : '@'.utf8Size = 1 := by decide
      refine ⟨(before.dropWhile (is_email_local libraries)).reverse,(before.takeWhile (is_email_local libraries)).reverse,
        after.takeWhile (is_email_domain libraries),after.dropWhile (is_email_domain libraries),?_,?_,?_,?_⟩
      · conv => lhs; rw [sides]
        rw [List.reverse_append,List.append_assoc,List.append_assoc,List.cons_append,List.takeWhile_append_dropWhile]
      · simp only [size_reverse,size_append,size_cons,single,Span.mk.injEq,and_true]
        exact ⟨by omega,by omega⟩
      · exact fun c member => List.mem_takeWhile_imp (List.mem_reverse.mp member)
      · exact fun c member => List.mem_takeWhile_imp member
  · cases hit

theorem marks_email_here : MarksHere (email_here libraries) := by
  intro before rest span hit
  obtain ⟨a,user,host,b,parts,rfl,_⟩ := email_here_shape hit
  exact ⟨a,user ++ '@' :: host,b,parts,List.append_ne_nil_of_right_ne_nil _ (List.cons_ne_nil _ _),rfl,rfl⟩

/-- The run of digits that begins at a position. -/
theorem hex_here_shape {before rest : Text} {span : Span} (hit : span ∈ hex_here libraries before rest) :
    rest.takeWhile is_hex ≠ [] ∧ span = ⟨size before,size before + size (rest.takeWhile is_hex),"hex-secret"⟩ := by
  unfold hex_here at hit
  by_cases within : before.head?.any is_hex = true
  · rw [if_pos within] at hit
    cases hit
  · rw [if_neg within] at hit
    by_cases secret : (HEX_SECRET_MIN_LEN ≤ (rest.takeWhile is_hex).length &&
        has_hex_context_key libraries (before.takeWhile (· != '\n'))) = true
    · rw [if_pos secret] at hit
      refine ⟨fun empty => ?_,List.mem_singleton.mp hit⟩
      rw [empty] at secret
      cases secret
    · rw [if_neg secret] at hit
      cases hit

theorem marks_hex_here : MarksHere (hex_here libraries) := by
  intro before rest span hit
  obtain ⟨some_,rfl⟩ := hex_here_shape hit
  exact marks_from some_ (List.takeWhile_prefix _) _

/-- The token that begins at a position. -/
theorem entropy_here_shape {before rest : Text} {span : Span} (hit : span ∈ entropy_here libraries before rest) :
    (rest.takeWhile fun c => !is_entropy_split c) ≠ [] ∧
      span = ⟨size before,size before + size (rest.takeWhile fun c => !is_entropy_split c),"high-entropy"⟩ := by
  unfold entropy_here at hit
  by_cases within : (before.head?.any fun c => !is_entropy_split c) = true
  · rw [if_pos within] at hit
    cases hit
  · rw [if_neg within] at hit
    by_cases secret : (HIGH_ENTROPY_MIN_LEN ≤ (rest.takeWhile fun c => !is_entropy_split c).length &&
        looks_like_secret_charset (rest.takeWhile fun c => !is_entropy_split c) &&
          HIGH_ENTROPY_BITS.le (shannon_entropy libraries (rest.takeWhile fun c => !is_entropy_split c))) = true
    · rw [if_pos secret] at hit
      refine ⟨fun empty => ?_,List.mem_singleton.mp hit⟩
      rw [empty] at secret
      cases secret
    · rw [if_neg secret] at hit
      cases hit

theorem marks_entropy_here : MarksHere (entropy_here libraries) := by
  intro before rest span hit
  obtain ⟨some_,rfl⟩ := entropy_here_shape hit
  exact marks_from some_ (List.takeWhile_prefix _) _

theorem marks_providerHits {text : Text} : ∀ span ∈ providerHits libraries text, span.Marks text := by
  intro span found
  obtain ⟨p,listed,hit⟩ := List.mem_flatMap.mp found
  obtain ⟨c₀,tail,begins,_⟩ := secret_prefixes_begin p listed
  exact marks_walk (marks_provider_here (begins ▸ List.cons_ne_nil _ _)) span hit

/-! ## The denylist -/

/-- The next bracket after an opening. -/
theorem placeholder_visit_eq (a b : Text) : ']' ∉ b ∧ placeholder_visit (a ++ b) (size a) = some ([],none) ∨
    ∃ x y, b = x ++ ']' :: y ∧ ']' ∉ x ∧ Boundary (a ++ b) (size a + size x + 1) ∧
      placeholder_visit (a ++ b) (size a) = some ([(size a,size a + size x + 1)],some (size a + size x + 1)) := by
  unfold placeholder_visit
  simp only [sliceFrom_append,find_singleton,Option.pure_def,Option.bind_eq_bind,Option.bind_some]
  rcases findChar_split (· == ']') b with ⟨none_,free⟩ | ⟨x,c,y,rfl,kind,first,found⟩
  · rw [none_]
    refine Or.inl ⟨fun member => ?_,rfl⟩
    have := free ']' member
    cases this
  · cases beq_iff_eq.mp kind
    rw [found]
    refine Or.inr ⟨x,y,rfl,fun member => ?_,⟨a ++ (x ++ [']']),y,by simp only [List.append_assoc,List.singleton_append],?_⟩,rfl⟩
    · have := first ']' member
      cases this
    · simp only [size_append,Nat.add_assoc]
      rfl

/-- The scan for placeholders returns ranges from an opening to the next bracket. -/
theorem placeholder_spans_shape (text : Text) : ∃ ranges, placeholder_spans text = some ranges ∧
    ∀ r ∈ ranges, ∃ a b x y, text = a ++ (OPEN ++ b) ∧ OPEN ++ b = x ++ ']' :: y ∧ ']' ∉ x ∧ r = (size a,size a + size x + 1) := by
  have visits : ∀ a b, text = a ++ (OPEN ++ b) → ∃ step, placeholder_visit text (size a) = some step ∧
      ∀ n, step.2 = some n → size a < n ∧ (Boundary text n ∨ false = true ∧ size text ≤ n) := by
    rintro a b rfl
    rcases placeholder_visit_eq a (OPEN ++ b) with ⟨_,visit⟩ | ⟨x,y,_,_,boundary,visit⟩
    · exact ⟨_,visit,fun n next => by cases next⟩
    · refine ⟨_,visit,fun n next => ?_⟩
      cases next
      exact ⟨by omega,Or.inl boundary⟩
  have start : Boundary text 0 := ⟨[],text,rfl,rfl⟩
  have enough : size text < size text + 1 + 0 := by omega
  obtain ⟨ranges,found,each⟩ := scan_total (List.cons_ne_nil _ _) visits (Or.inl start) enough (Nat.succ_pos _)
  refine ⟨ranges,found,fun r member => ?_⟩
  obtain ⟨a,b,step,parts,visited,here⟩ := each r member
  rw [parts] at visited
  rcases placeholder_visit_eq a (OPEN ++ b) with ⟨_,visit⟩ | ⟨x,y,split,free,_,visit⟩
  · rw [← Option.some.inj (visit.symm.trans visited)] at here
    exact absurd here List.not_mem_nil
  · rw [← Option.some.inj (visit.symm.trans visited)] at here
    exact ⟨a,b,x,y,parts,split,free,List.mem_singleton.mp here⟩

theorem placeholder_spans_total (text : Text) : ∃ ranges, placeholder_spans text = some ranges := by
  obtain ⟨ranges,found,_⟩ := placeholder_spans_shape text
  exact ⟨ranges,found⟩

/-- The matches of a literal that count. -/
theorem literal_ranges_total (text : Text) (placeholders : List (Nat × Nat)) (literal : Text) :
    ∃ ranges, literal_ranges text placeholders literal = some ranges ∧ ∀ r ∈ ranges, DENYLIST_MIN_LEN ≤ size literal ∧
      range_overlaps placeholders r.1 r.2 = false ∧ ∃ a b, text = a ++ (literal ++ b) ∧ r = (size a,size a + size literal) := by
  unfold literal_ranges
  by_cases short : size literal < DENYLIST_MIN_LEN
  · rw [if_pos short]
    exact ⟨[],rfl,fun _ member => absurd member List.not_mem_nil⟩
  · rw [if_neg short]
    have solid : literal ≠ [] := by
      rintro rfl
      exact short (by decide)
    have positive := size_pos solid
    have visits : ∀ a b, text = a ++ (literal ++ b) → ∃ step, literal_visit placeholders literal (size a) = some step ∧
        ∀ n, step.2 = some n → size a < n ∧ (Boundary text n ∨ false = true ∧ size text ≤ n) := by
      refine fun a b parts => ⟨_,rfl,fun n next => ?_⟩
      cases next
      refine ⟨by omega,Or.inl ⟨a ++ literal,b,by rw [parts,List.append_assoc],?_⟩⟩
      rw [size_append]
      omega
    have start : Boundary text 0 := ⟨[],text,rfl,rfl⟩
    have enough : size text < size text + 1 + 0 := by omega
    obtain ⟨ranges,found,each⟩ := scan_total solid visits (Or.inl start) enough (Nat.succ_pos _)
    refine ⟨ranges,found,fun r member => ?_⟩
    obtain ⟨a,b,step,parts,same,here⟩ := each r member
    cases same
    by_cases inside : range_overlaps placeholders (size a) (size a + size literal) = true
    · rw [if_pos inside] at here
      cases here
    · rw [if_neg inside] at here
      cases List.mem_singleton.mp here
      exact ⟨not_lt.mp short,Bool.eq_false_iff.mpr inside,a,b,parts,rfl⟩

/-- Two positions between characters mark the part between them. -/
theorem marks_of_boundaries {text : Text} {start stop : Nat} (first : Boundary text start) (last : Boundary text stop) (solid : start < stop)
    (rule : String) : Span.Marks ⟨start,stop,rule⟩ text := by
  obtain ⟨a,b,rfl,rfl⟩ := first
  obtain ⟨c,d,parts,rfl⟩ := last
  rcases List.append_eq_append_iff.mp parts with ⟨token,rfl,rfl⟩ | ⟨token,rfl,rfl⟩
  · rw [size_append] at solid
    refine ⟨a,token,d,rfl,fun empty => ?_,rfl,size_append a token⟩
    rw [empty,size_nil] at solid
    omega
  · rw [size_append] at solid
    omega

/-- Ranges that are not empty, in order. -/
structure Ordered (ranges : List (Nat × Nat)) : Prop where
  solid : ∀ r ∈ ranges, r.1 < r.2
  sorted : ranges.Pairwise fun r s => r.1 ≤ s.1

theorem Ordered.merged {cur next : Nat × Nat} {rest : List (Nat × Nat)} (ordered : Ordered (cur :: next :: rest)) :
    Ordered ((cur.1,max cur.2 next.2) :: rest) := by
  obtain ⟨first,later⟩ := List.pairwise_cons.mp ordered.sorted
  refine ⟨fun r member => ?_,List.pairwise_cons.mpr ⟨fun r member => first r (List.mem_cons_of_mem _ member),(List.pairwise_cons.mp later).2⟩⟩
  rcases List.mem_cons.mp member with rfl | old
  · exact lt_max_of_lt_left (ordered.solid cur List.mem_cons_self)
  · exact ordered.solid r (List.mem_cons_of_mem _ (List.mem_cons_of_mem _ old))

theorem Ordered.tail {cur : Nat × Nat} {rest : List (Nat × Nat)} (ordered : Ordered (cur :: rest)) : Ordered rest :=
  ⟨fun r member => ordered.solid r (List.mem_cons_of_mem _ member),(List.pairwise_cons.mp ordered.sorted).2⟩

/-- Merging keeps what is covered. -/
theorem covers_merge_ranges {cur : Nat × Nat} {rest : List (Nat × Nat)} (ordered : Ordered (cur :: rest)) (p : Nat) :
    Intervals.Covers Prod.fst Prod.snd (merge_ranges cur rest) p ↔ Intervals.Covers Prod.fst Prod.snd (cur :: rest) p := by
  induction rest generalizing cur with
  | nil => rfl
  | cons next rest ih =>
    unfold merge_ranges
    by_cases overlap : next.1 < cur.2
    · rw [if_pos overlap,ih ordered.merged]
      have starts := (List.pairwise_cons.mp ordered.sorted).1 next List.mem_cons_self
      simp only [Intervals.Covers,List.exists_mem_cons_iff]
      constructor
      · rintro (⟨low,high⟩ | others)
        · rcases lt_or_ge p cur.2 with within | past
          · exact Or.inl ⟨low,within⟩
          · exact Or.inr (Or.inl ⟨by omega,by omega⟩)
        · exact Or.inr (Or.inr others)
      · rintro (⟨low,high⟩ | ⟨low,high⟩ | others)
        · exact Or.inl ⟨low,lt_max_of_lt_left high⟩
        · exact Or.inl ⟨by omega,lt_max_of_lt_right high⟩
        · exact Or.inr others
    · rw [if_neg overlap]
      simp only [Intervals.Covers,List.exists_mem_cons_iff] at ih ⊢
      rw [ih ordered.tail]

/-- A merged range begins where one begins and ends where one ends. -/
theorem mem_merge_ranges {cur : Nat × Nat} {rest : List (Nat × Nat)} {r : Nat × Nat} (member : r ∈ merge_ranges cur rest) :
    (∃ x ∈ cur :: rest, r.1 = x.1) ∧ ∃ y ∈ cur :: rest, r.2 = y.2 := by
  induction rest generalizing cur with
  | nil =>
    cases List.mem_singleton.mp member
    exact ⟨⟨_,List.mem_cons_self,rfl⟩,_,List.mem_cons_self,rfl⟩
  | cons next rest ih =>
    unfold merge_ranges at member
    by_cases overlap : next.1 < cur.2
    · rw [if_pos overlap] at member
      obtain ⟨⟨x,listed,starts⟩,y,listed',stops⟩ := ih member
      refine ⟨?_,?_⟩
      · rcases List.mem_cons.mp listed with rfl | old
        · exact ⟨cur,List.mem_cons_self,starts⟩
        · exact ⟨x,List.mem_cons_of_mem _ (List.mem_cons_of_mem _ old),starts⟩
      · rcases List.mem_cons.mp listed' with rfl | old
        · rcases max_choice cur.2 next.2 with first | second
          · exact ⟨cur,List.mem_cons_self,stops.trans first⟩
          · exact ⟨next,List.mem_cons_of_mem _ List.mem_cons_self,stops.trans second⟩
        · exact ⟨y,List.mem_cons_of_mem _ (List.mem_cons_of_mem _ old),stops⟩
    · rw [if_neg overlap] at member
      rcases List.mem_cons.mp member with rfl | later
      · exact ⟨⟨r,List.mem_cons_self,rfl⟩,r,List.mem_cons_self,rfl⟩
      · obtain ⟨⟨x,listed,starts⟩,y,listed',stops⟩ := ih later
        exact ⟨⟨x,List.mem_cons_of_mem _ listed,starts⟩,y,List.mem_cons_of_mem _ listed',stops⟩

/-- Merged ranges follow one another, none of them empty. -/
theorem chain_merge_ranges {cur : Nat × Nat} {rest : List (Nat × Nat)} (ordered : Ordered (cur :: rest)) :
    (merge_ranges cur rest).Pairwise (fun r s => r.2 ≤ s.1) ∧ ∀ r ∈ merge_ranges cur rest, r.1 < r.2 ∧ cur.1 ≤ r.1 := by
  induction rest generalizing cur with
  | nil =>
    refine ⟨List.pairwise_singleton _ _,fun r member => ?_⟩
    cases List.mem_singleton.mp member
    exact ⟨ordered.solid _ List.mem_cons_self,le_refl _⟩
  | cons next rest ih =>
    have starts := (List.pairwise_cons.mp ordered.sorted).1 next List.mem_cons_self
    unfold merge_ranges
    by_cases overlap : next.1 < cur.2
    · rw [if_pos overlap]
      exact ih ordered.merged
    · rw [if_neg overlap]
      obtain ⟨chain,solid⟩ := ih ordered.tail
      refine ⟨List.pairwise_cons.mpr ⟨fun r member => (not_lt.mp overlap).trans (solid r member).2,chain⟩,fun r member => ?_⟩
      rcases List.mem_cons.mp member with rfl | later
      · exact ⟨ordered.solid _ List.mem_cons_self,le_refl _⟩
      · exact ⟨(solid r later).1,starts.trans (solid r later).2⟩

instance : Std.Total rangeLe := ⟨fun a b => by unfold rangeLe; omega⟩

instance : IsTrans (Nat × Nat) rangeLe := ⟨fun a b c => by unfold rangeLe; omega⟩

/-- The ranges of all literals. -/
theorem literal_ranges_each (text : Text) (placeholders : List (Nat × Nat)) (denylist : List Text) :
    denylist.mapM (literal_ranges text placeholders) =
      some (denylist.map fun literal => (literal_ranges text placeholders literal).getD []) := by
  refine mapM_some fun literal _ => ?_
  obtain ⟨ranges,found,_⟩ := literal_ranges_total text placeholders literal
  rw [found]
  rfl

/-- The spans of the denylist cover the matches that count and nothing else. -/
theorem denylist_hits_total (text : Text) (denylist : List Text) :
    ∃ placeholders ranges hits, placeholder_spans text = some placeholders ∧
      denylist.mapM (literal_ranges text placeholders) = some ranges ∧ denylist_hits text denylist = some hits ∧
      (∀ span ∈ hits, span.Marks text ∧ span.rule = "denylist") ∧ hits.Pairwise (fun s t => s.stop ≤ t.start) ∧
      ∀ p, Intervals.Covers Span.start Span.stop hits p ↔ Intervals.Covers Prod.fst Prod.snd ranges.flatten p := by
  obtain ⟨placeholders,held⟩ := placeholder_spans_total text
  have each := literal_ranges_each text placeholders denylist
  have matched : ∀ r ∈ (denylist.map fun literal => (literal_ranges text placeholders literal).getD []).flatten,
      r.1 < r.2 ∧ Boundary text r.1 ∧ Boundary text r.2 := by
    intro r member
    obtain ⟨ranges,listed,here⟩ := List.mem_flatten.mp member
    obtain ⟨literal,_,rfl⟩ := List.mem_map.mp listed
    obtain ⟨ranges,found,counts⟩ := literal_ranges_total text placeholders literal
    rw [found] at here
    obtain ⟨long,_,a,b,parts,rfl⟩ := counts r here
    unfold DENYLIST_MIN_LEN at long
    refine ⟨?_,⟨a,literal ++ b,parts,rfl⟩,a ++ literal,b,by rw [parts,List.append_assoc],(size_append a literal).symm⟩
    simp only
    omega
  generalize (denylist.map fun literal => (literal_ranges text placeholders literal).getD []) = ranges at each matched
  refine ⟨placeholders,ranges,?_⟩
  unfold denylist_hits
  simp only [held,each,Option.pure_def,Option.bind_eq_bind,Option.bind_some]
  have perm := List.perm_insertionSort rangeLe ranges.flatten
  have sorted := List.pairwise_insertionSort rangeLe ranges.flatten
  have covers : ∀ p, Intervals.Covers Prod.fst Prod.snd (ranges.flatten.insertionSort rangeLe) p ↔
      Intervals.Covers Prod.fst Prod.snd ranges.flatten p := by
    intro p
    simp only [Intervals.Covers,perm.mem_iff]
  cases shape : ranges.flatten.insertionSort rangeLe with
  | nil =>
    rw [shape] at covers
    refine ⟨[],trivial,trivial,rfl,fun _ member => absurd member List.not_mem_nil,List.Pairwise.nil,fun p => ?_⟩
    rw [← covers]
    simp only [Intervals.Covers,List.not_mem_nil,false_and,exists_false]
  | cons first rest =>
    rw [shape] at covers sorted perm
    have ordered : Ordered (first :: rest) := by
      refine ⟨fun r member => (matched r (perm.mem_iff.mp member)).1,sorted.imp fun le => ?_⟩
      rcases le with less | ⟨same,_⟩
      · exact less.le
      · exact same.le
    obtain ⟨chain,solid⟩ := chain_merge_ranges ordered
    refine ⟨_,trivial,trivial,rfl,fun span member => ?_,?_,fun p => ?_⟩
    · obtain ⟨r,merged,rfl⟩ := List.mem_map.mp member
      obtain ⟨⟨x,listed,starts⟩,y,listed',stops⟩ := mem_merge_ranges merged
      refine ⟨marks_of_boundaries ?_ ?_ (solid r merged).1 _,rfl⟩
      · rw [starts]
        exact (matched x (perm.mem_iff.mp listed)).2.1
      · rw [stops]
        exact (matched y (perm.mem_iff.mp listed')).2.2
    · exact List.pairwise_map.mpr chain
    · rw [← covers,← covers_merge_ranges ordered]
      simp only [Intervals.Covers,List.mem_map,exists_exists_and_eq_and]

/-! ## URLs -/

/-- The scan of URLs comes to one with this authority. It goes on after the character that
    ends an authority, and only when that is one byte long. -/
inductive VisitsUrl : Text → Text → Text → Text → Prop where
  | first {before authority after : Text} (earliest : find "://".toList (before ++ ("://".toList ++ (authority ++ after))) = some (size before))
      (within : ∀ c ∈ authority, endsAuthority c = false) (ends : ∀ c ∈ after.head?, endsAuthority c = true) :
      VisitsUrl (before ++ ("://".toList ++ (authority ++ after))) (before ++ "://".toList) authority after
  | next {before authority rest before' authority' after' : Text} {c : Char}
      (visited : find "://".toList (before ++ ("://".toList ++ (authority ++ c :: rest))) = some (size before))
      (within : ∀ d ∈ authority, endsAuthority d = false) (ends : endsAuthority c = true) (narrow : c.utf8Size = 1)
      (later : VisitsUrl rest before' authority' after') :
      VisitsUrl (before ++ ("://".toList ++ (authority ++ c :: rest))) (before ++ ("://".toList ++ (authority ++ c :: before'))) authority' after'

theorem VisitsUrl.parts {text before authority after : Text} (visits : VisitsUrl text before authority after) :
    text = before ++ (authority ++ after) := by
  induction visits with
  | first => simp only [List.append_assoc]
  | next visited within ends narrow later ih =>
    rw [ih]
    simp only [List.append_assoc,List.cons_append]

/-- An authority ends where the first character that ends one stands. -/
theorem authority_unique {a b rest rest' : Text} (same : a ++ rest = b ++ rest') (within : ∀ c ∈ a, endsAuthority c = false)
    (within' : ∀ c ∈ b, endsAuthority c = false) (ends : ∀ c ∈ rest.head?, endsAuthority c = true)
    (ends' : ∀ c ∈ rest'.head?, endsAuthority c = true) : a = b ∧ rest = rest' := by
  rcases List.append_eq_append_iff.mp same with ⟨more,rfl,rfl⟩ | ⟨more,rfl,rfl⟩
  · cases more with
    | nil => simp
    | cons c more =>
      have last := ends c rfl
      rw [within' c (by simp)] at last
      cases last
  · cases more with
    | nil => simp
    | cons c more =>
      have last := ends' c rfl
      rw [within c (by simp)] at last
      cases last

theorem url_unique {before rest before' rest' : Text} (first : find "://".toList (before ++ ("://".toList ++ rest)) = some (size before))
    (second : find "://".toList (before' ++ ("://".toList ++ rest')) = some (size before'))
    (same : before ++ ("://".toList ++ rest) = before' ++ ("://".toList ++ rest')) : before = before' ∧ rest = rest' := by
  rw [same,second] at first
  obtain ⟨rfl,tail⟩ := split_unique same (Option.some.inj first).symm
  exact ⟨rfl,List.append_cancel_left tail⟩

/-- From one URL to the next. -/
theorem visitsUrl_iff {before authority rest : Text} {c : Char}
    (visited : find "://".toList (before ++ ("://".toList ++ (authority ++ c :: rest))) = some (size before))
    (within : ∀ d ∈ authority, endsAuthority d = false) (ends : endsAuthority c = true) {x y z : Text} :
    VisitsUrl (before ++ ("://".toList ++ (authority ++ c :: rest))) x y z ↔
      (x = before ++ "://".toList ∧ y = authority ∧ z = c :: rest) ∨
        c.utf8Size = 1 ∧ ∃ x', x = before ++ ("://".toList ++ (authority ++ c :: x')) ∧ VisitsUrl rest x' y z := by
  constructor
  · intro visits
    generalize whole : before ++ ("://".toList ++ (authority ++ c :: rest)) = text at visits
    cases visits with
    | first earliest within' ends' =>
      obtain ⟨rfl,tail⟩ := url_unique visited earliest whole
      obtain ⟨rfl,rfl⟩ := authority_unique tail within within' (by simpa using ends) ends'
      exact Or.inl ⟨rfl,rfl,rfl⟩
    | next visited' within' ends' narrow later =>
      obtain ⟨rfl,tail⟩ := url_unique visited visited' whole
      obtain ⟨rfl,more⟩ := authority_unique tail within within' (by simpa using ends) (by simpa using ends')
      obtain ⟨rfl,rfl⟩ := List.cons.inj more
      exact Or.inr ⟨narrow,_,rfl,later⟩
  · rintro (⟨rfl,rfl,rfl⟩ | ⟨narrow,x',rfl,later⟩)
    · exact VisitsUrl.first visited within (by simpa using ends)
    · exact VisitsUrl.next visited within ends narrow later

/-- A password between the first colon and the last at sign. -/
structure Credential (authority user secret host : Text) : Prop where
  parts : authority = user ++ ':' :: (secret ++ '@' :: host)
  first : ':' ∉ user
  last : '@' ∉ host
  some_ : secret ≠ []

def passwordSpan (start : Nat) (user secret : Text) : Span :=
  ⟨start + size user + 1,start + size user + 1 + size secret,"connection-string-password"⟩

theorem last_unique {a b a' b' : Text} {c : Char} (same : a ++ c :: b = a' ++ c :: b') (free : c ∉ b) (free' : c ∉ b') : a = a' ∧ b = b' := by
  rcases List.append_eq_append_iff.mp same with ⟨more,rfl,tail⟩ | ⟨more,rfl,tail⟩
  · cases more with
    | nil => exact ⟨(List.append_nil a).symm,(List.cons.inj tail).2⟩
    | cons d more =>
      obtain ⟨_,rfl⟩ := List.cons.inj tail
      exact absurd (List.mem_append_right _ List.mem_cons_self) free
  · cases more with
    | nil => exact ⟨List.append_nil a',(List.cons.inj tail).2.symm⟩
    | cons d more =>
      obtain ⟨_,rfl⟩ := List.cons.inj tail
      exact absurd (List.mem_append_right _ List.mem_cons_self) free'

theorem first_unique {a b a' b' : Text} {c : Char} (same : a ++ c :: b = a' ++ c :: b') (free : c ∉ a) (free' : c ∉ a') : a = a' ∧ b = b' := by
  rcases List.append_eq_append_iff.mp same with ⟨more,rfl,tail⟩ | ⟨more,rfl,tail⟩
  · cases more with
    | nil => exact ⟨(List.append_nil a).symm,(List.cons.inj tail).2⟩
    | cons d more =>
      obtain ⟨rfl,_⟩ := List.cons.inj tail
      exact absurd (List.mem_append_right _ List.mem_cons_self) free'
  · cases more with
    | nil => exact ⟨List.append_nil a',(List.cons.inj tail).2.symm⟩
    | cons d more =>
      obtain ⟨rfl,_⟩ := List.cons.inj tail
      exact absurd (List.mem_append_right _ List.mem_cons_self) free

theorem password_total (start : Nat) (authority : Text) : ∃ hits, password start authority = some hits ∧
    ∀ span, span ∈ hits ↔ ∃ user secret host, Credential authority user secret host ∧ span = passwordSpan start user secret := by
  unfold password
  rcases rfindChar_eq (· == '@') authority with ⟨none_,free⟩ | ⟨before,c,host,rfl,kind,last,found⟩
  · rw [none_]
    refine ⟨[],rfl,fun span => ?_⟩
    simp only [List.not_mem_nil,false_iff]
    rintro ⟨user,secret,host,credential,_⟩
    have := free '@' (by rw [credential.parts]; simp)
    cases this
  · cases beq_iff_eq.mp kind
    have last_ : '@' ∉ host := fun member => by
      have := last '@' member
      cases this
    rw [found]
    simp only [sliceTo_append,Option.pure_def,Option.bind_eq_bind,Option.bind_some]
    rcases findChar_split (· == ':') before with ⟨none_,free⟩ | ⟨user,d,secret,rfl,colon,first,stands⟩
    · rw [none_]
      refine ⟨[],rfl,fun span => ?_⟩
      simp only [List.not_mem_nil,false_iff]
      rintro ⟨user,secret,host',credential,_⟩
      have parts : before ++ '@' :: host = (user ++ ':' :: secret) ++ '@' :: host' := by
        rw [credential.parts,List.append_assoc,List.cons_append]
      obtain ⟨rfl,_⟩ := last_unique parts last_ credential.last
      have := free ':' (by simp)
      cases this
    · cases beq_iff_eq.mp colon
      have first_ : ':' ∉ user := fun member => by
        have := first ':' member
        cases this
      have single : ':'.utf8Size = 1 := by decide
      have same : ∀ user' secret' host', Credential ((user ++ ':' :: secret) ++ '@' :: host) user' secret' host' → user' = user ∧ secret' = secret := by
        intro user' secret' host' credential
        have parts := credential.parts
        rw [show user' ++ ':' :: (secret' ++ '@' :: host') = (user' ++ ':' :: secret') ++ '@' :: host' by rw [List.append_assoc,List.cons_append]] at parts
        obtain ⟨inner,_⟩ := last_unique parts last_ credential.last
        obtain ⟨rfl,rfl⟩ := first_unique inner first_ credential.first
        exact ⟨rfl,rfl⟩
      rw [stands]
      simp only
      by_cases empty : secret = []
      · refine ⟨_,rfl,fun span => ?_⟩
        rw [if_neg (by rw [empty,size_append,size_cons,size_nil]; omega)]
        simp only [List.not_mem_nil,false_iff]
        rintro ⟨user',secret',host',credential,_⟩
        exact credential.some_ ((same _ _ _ credential).2.trans empty)
      · have inside := size_pos empty
        refine ⟨_,rfl,fun span => ?_⟩
        rw [if_pos (by rw [size_append,size_cons]; omega),List.mem_singleton]
        have stop : start + size (user ++ ':' :: secret) = start + size user + 1 + size secret := by
          rw [size_append,size_cons]
          omega
        rw [stop]
        constructor
        · rintro rfl
          exact ⟨user,secret,host,⟨by rw [List.append_assoc,List.cons_append],first_,last_,empty⟩,rfl⟩
        · rintro ⟨user',secret',host',credential,rfl⟩
          obtain ⟨rfl,rfl⟩ := same _ _ _ credential
          rfl

/-- Some visited URL ends at a separator of more than one byte, inside which the scan would go on. -/
def WideSeparator (text : Text) : Prop := ∃ before authority c after, VisitsUrl text before authority (c :: after) ∧ 1 < c.utf8Size

/-- The password of a visited URL, in a text that begins at a position. -/
def UrlHit (start : Nat) (text : Text) (span : Span) : Prop :=
  ∃ before authority after user secret host, VisitsUrl text before authority after ∧ Credential authority user secret host ∧
    span = passwordSpan (start + size before) user secret

theorem url_visit_eq (a before rest : Text) : ∃ hits,
    url_visit (a ++ (before ++ ("://".toList ++ rest))) (size a + size before) =
      some (hits,some (size (a ++ (before ++ ("://".toList ++ rest.takeWhile fun c => !endsAuthority c))) + 1)) ∧
    ∀ span, span ∈ hits ↔ ∃ user secret host, Credential (rest.takeWhile fun c => !endsAuthority c) user secret host ∧
      span = passwordSpan (size a + size (before ++ "://".toList)) user secret := by
  have start : size a + size before + 3 = size a + size (before ++ "://".toList) := by
    rw [size_append]
    have : size "://".toList = 3 := by decide
    omega
  have text : sliceFrom (a ++ (before ++ ("://".toList ++ rest))) (size a + size (before ++ "://".toList)) = some rest :=
    sliceFrom_iff.mpr ⟨a ++ (before ++ "://".toList),by simp only [List.append_assoc],(size_append _ _).symm⟩
  have authority : sliceTo rest (size (rest.takeWhile fun c => !endsAuthority c)) = some (rest.takeWhile fun c => !endsAuthority c) :=
    sliceTo_iff.mpr ⟨_,List.takeWhile_append_dropWhile.symm,rfl⟩
  obtain ⟨hits,found,members⟩ := password_total (size a + size (before ++ "://".toList)) (rest.takeWhile fun c => !endsAuthority c)
  refine ⟨hits,?_,members⟩
  have stop : size (a ++ (before ++ ("://".toList ++ rest.takeWhile fun c => !endsAuthority c))) =
      size a + size (before ++ "://".toList) + size (rest.takeWhile fun c => !endsAuthority c) := by
    simp only [size_append]
    omega
  unfold url_visit
  simp only [start,text,findChar_getD,authority,found,stop,Option.pure_def,Option.bind_eq_bind,Option.bind_some]

theorem url_scan {a rest : Text} {fuel : Nat} (enough : rest.length < fuel) :
    (WideSeparator rest → scan (a ++ rest) "://".toList true (url_visit (a ++ rest)) fuel (size a) = none) ∧
      (¬ WideSeparator rest → ∃ hits, scan (a ++ rest) "://".toList true (url_visit (a ++ rest)) fuel (size a) = some hits ∧
        ∀ span, span ∈ hits ↔ UrlHit (size a) rest span) := by
  induction fuel generalizing a rest with
  | zero => omega
  | succ fuel ih =>
    rw [scan_boundary (by decide)]
    cases found : find "://".toList rest with
    | none =>
      have none_ : ∀ x y z, ¬ VisitsUrl rest x y z := by
        intro x y z visits
        cases visits with
        | first earliest => rw [found] at earliest; cases earliest
        | next visited => rw [found] at visited; cases visited
      constructor
      · rintro ⟨x,y,c,z,visits,_⟩
        exact absurd visits (none_ _ _ _)
      · intro _
        refine ⟨[],rfl,fun span => ?_⟩
        simp only [List.not_mem_nil,false_iff]
        rintro ⟨x,y,z,_,_,_,visits,_⟩
        exact none_ _ _ _ visits
    | some rel =>
      obtain ⟨before,⟨rest,rfl⟩,rfl,_⟩ := find_some found
      obtain ⟨hits,seen,members⟩ := url_visit_eq a before rest
      simp only [seen,Option.bind_some]
      have within : ∀ c ∈ rest.takeWhile (fun c => !endsAuthority c), endsAuthority c = false := by
        intro c member
        have kind := List.all_eq_true.mp (List.all_takeWhile (p := fun c => !endsAuthority c) (l := rest)) c member
        simpa using kind
      have split : rest = rest.takeWhile (fun c => !endsAuthority c) ++ rest.dropWhile (fun c => !endsAuthority c) :=
        List.takeWhile_append_dropWhile.symm
      have ending := List.head?_dropWhile_not (fun c => !endsAuthority c) rest
      generalize rest.takeWhile (fun c => !endsAuthority c) = authority at seen members within split
      generalize rest.dropWhile (fun c => !endsAuthority c) = after at split ending
      subst split
      rw [List.length_append,List.length_append,List.length_append] at enough
      have three : "://".toList.length = 3 := by decide
      cases after with
      | nil =>
        have here : ∀ {x y z}, VisitsUrl (before ++ ("://".toList ++ (authority ++ []))) x y z ↔ x = before ++ "://".toList ∧ y = authority ∧ z = [] := by
          intro x y z
          constructor
          · intro visits
            generalize whole : before ++ ("://".toList ++ (authority ++ [])) = text at visits
            cases visits with
            | first earliest within' ends' =>
              obtain ⟨rfl,tail⟩ := url_unique found earliest whole
              obtain ⟨rfl,rfl⟩ := authority_unique tail within within' (fun _ none_ => by cases none_) ends'
              exact ⟨rfl,rfl,rfl⟩
            | next visited' within' ends' narrow later =>
              obtain ⟨rfl,tail⟩ := url_unique found visited' whole
              obtain ⟨_,more⟩ := authority_unique tail within within' (fun _ none_ => by cases none_) (by simpa using ends')
              cases more
          · rintro ⟨rfl,rfl,rfl⟩
            exact VisitsUrl.first found within fun _ none_ => by cases none_
        obtain ⟨fuel,rfl⟩ : ∃ n, fuel = n + 1 := ⟨fuel - 1,by omega⟩
        rw [scan_end (by simp only [size_append,List.append_nil]; omega)]
        constructor
        · rintro ⟨x,y,c,z,visits,_⟩
          cases (here.mp visits).2.2
        · intro _
          refine ⟨hits,by simp,fun span => ?_⟩
          rw [members]
          constructor
          · rintro ⟨user,secret,host,credential,rfl⟩
            exact ⟨_,_,_,user,secret,host,here.mpr ⟨rfl,rfl,rfl⟩,credential,rfl⟩
          · rintro ⟨x,y,z,user,secret,host,visits,credential,rfl⟩
            obtain ⟨rfl,rfl,rfl⟩ := here.mp visits
            exact ⟨user,secret,host,credential,rfl⟩
      | cons c rest =>
        have ends : endsAuthority c = true := by simpa using ending
        have whole : a ++ (before ++ ("://".toList ++ (authority ++ c :: rest))) =
            (a ++ (before ++ ("://".toList ++ authority))) ++ c :: rest := by simp only [List.append_assoc]
        have steps := @visitsUrl_iff before authority rest c found within ends
        by_cases narrow : c.utf8Size = 1
        · have place : size (a ++ (before ++ ("://".toList ++ authority))) + 1 = size ((a ++ (before ++ ("://".toList ++ authority))) ++ [c]) := by
            rw [size_append _ [c],size_cons,size_nil,narrow]
          have deeper := @ih ((a ++ (before ++ ("://".toList ++ authority))) ++ [c]) rest (by rw [List.length_cons] at enough; omega)
          have same : ((a ++ (before ++ ("://".toList ++ authority))) ++ [c]) ++ rest = a ++ (before ++ ("://".toList ++ (authority ++ c :: rest))) := by
            simp only [List.append_assoc,List.singleton_append]
          rw [same,← place] at deeper
          have wide_iff : WideSeparator (before ++ ("://".toList ++ (authority ++ c :: rest))) ↔ WideSeparator rest := by
            constructor
            · rintro ⟨x,y,d,z,visits,wide⟩
              rcases steps.mp visits with ⟨_,_,last⟩ | ⟨_,x',_,later⟩
              · cases last
                omega
              · exact ⟨x',y,d,z,later,wide⟩
            · rintro ⟨x,y,d,z,later,wide⟩
              exact ⟨_,y,d,z,steps.mpr (Or.inr ⟨narrow,x,rfl,later⟩),wide⟩
          constructor
          · intro wide
            rw [deeper.1 (wide_iff.mp wide)]
            rfl
          · intro fine
            obtain ⟨more,ran,members'⟩ := deeper.2 (mt wide_iff.mpr fine)
            refine ⟨hits ++ more,by rw [ran]; rfl,fun span => ?_⟩
            rw [List.mem_append,members,members']
            constructor
            · rintro (⟨user,secret,host,credential,rfl⟩ | ⟨x,y,z,user,secret,host,later,credential,rfl⟩)
              · exact ⟨_,_,_,user,secret,host,steps.mpr (Or.inl ⟨rfl,rfl,rfl⟩),credential,rfl⟩
              · refine ⟨_,y,z,user,secret,host,steps.mpr (Or.inr ⟨narrow,x,rfl,later⟩),credential,?_⟩
                congr 1
                rw [place]
                simp only [size_append,size_cons,size_nil]
                omega
            · rintro ⟨x,y,z,user,secret,host,visits,credential,rfl⟩
              rcases steps.mp visits with ⟨rfl,rfl,rfl⟩ | ⟨_,x',rfl,later⟩
              · exact Or.inl ⟨user,secret,host,credential,rfl⟩
              · refine Or.inr ⟨x',y,z,user,secret,host,later,credential,?_⟩
                congr 1
                rw [place]
                simp only [size_append,size_cons,size_nil]
                omega
        · have wide : 1 < c.utf8Size := by
            have := Char.utf8Size_pos c
            omega
          have halts : scan (a ++ (before ++ ("://".toList ++ (authority ++ c :: rest)))) "://".toList true
              (url_visit (a ++ (before ++ ("://".toList ++ (authority ++ c :: rest))))) fuel
                (size (a ++ (before ++ ("://".toList ++ authority))) + 1) = none := by
            obtain ⟨fuel,rfl⟩ : ∃ n, fuel = n + 1 := ⟨fuel - 1,by omega⟩
            have more : ¬ size (a ++ (before ++ ("://".toList ++ (authority ++ c :: rest)))) ≤ size (a ++ (before ++ ("://".toList ++ authority))) + 1 := by
              rw [whole,size_append _ (c :: rest),size_cons]
              omega
            rw [scan,if_neg fun past => more past.2,whole,sliceFrom_inside _ _ wide]
            rfl
          rw [halts]
          constructor
          · intro _
            rfl
          · intro fine
            exact absurd ⟨_,_,c,rest,steps.mpr (Or.inl ⟨rfl,rfl,rfl⟩),wide⟩ fine

/-- The scan of URLs ends unless a separator is wide, and then it finds their passwords. -/
theorem url_hits_total (text : Text) : (WideSeparator text → url_hits text = none) ∧
    (¬ WideSeparator text → ∃ hits, url_hits text = some hits ∧ ∀ span, span ∈ hits ↔ UrlHit 0 text span) :=
  url_scan (a := []) (Nat.lt_succ_of_le (length_le_size text))

end MemoryEngine.Redact
