import MemoryEngine.RedactTwice

/-! What a redacted text may still hold of the denylist. No span cuts a placeholder that is
there already, but for a password of a URL that begins inside one; so a match that is kept
touches a placeholder when it did so before. -/

namespace MemoryEngine.Redact
open ByteText Intervals

variable {libraries : RedactLibraries}

/-- Where a genuine placeholder stands. -/
theorem Genuine.stands {text : Text} {start stop : Nat} (genuine : Genuine text start stop) :
    ∃ rule ∈ RULES, ∃ a b, text = a ++ (placeholder rule ++ b) ∧ size a = start ∧ size a + size (placeholder rule) = stop := by
  obtain ⟨rule,named,a,⟨b,whole⟩,first,last⟩ := genuine
  exact ⟨rule,named,a,b,whole,first.symm,last.symm⟩

/-! ## Cuts -/

/-- A span begins or ends inside of a range. -/
def Cuts (span : Span) (start stop : Nat) : Prop := start < span.start ∧ span.start < stop ∨ start < span.stop ∧ span.stop < stop

/-- No genuine placeholder is cut. -/
def LeavesWhole (text : Text) (span : Span) : Prop := ∀ start stop, Genuine text start stop → ¬ Cuts span start stop

/-- Two characters that differ stand one after the other. -/
theorem two_places {c d : Char} (different : c ≠ d) {a b x y : Text} (same : a ++ c :: b = x ++ d :: y) :
    (∃ m, x = a ++ c :: m ∧ b = m ++ d :: y) ∨ ∃ m, a = x ++ d :: m ∧ y = m ++ c :: b := by
  rcases List.append_eq_append_iff.mp same with ⟨m,rfl,tail⟩ | ⟨m,rfl,tail⟩
  · cases m with
    | nil => exact absurd (List.cons.inj tail).1 different
    | cons e m =>
      obtain ⟨rfl,rfl⟩ := List.cons.inj tail
      exact Or.inl ⟨m,rfl,rfl⟩
  · cases m with
    | nil => exact absurd (List.cons.inj tail).1.symm different
    | cons e m =>
      obtain ⟨rfl,rfl⟩ := List.cons.inj tail
      exact Or.inr ⟨m,rfl,rfl⟩

/-- A position inside of a placeholder. -/
theorem inside_placeholder {a b x rest : Text} {rule : String} (same : a ++ (placeholder rule ++ b) = x ++ rest) (low : size a < size x)
    (high : size x < size a + size (placeholder rule)) : ∃ y z, x = a ++ '[' :: y ∧ label rule = y ++ z ∧ rest = z ++ ']' :: b := by
  rcases List.append_eq_append_iff.mp same with ⟨m,rfl,tail⟩ | ⟨m,rfl,_⟩
  · rw [placeholder_eq] at tail high
    cases m with
    | nil => simp at low
    | cons c y =>
      rw [List.cons_append,List.cons_append] at tail
      obtain ⟨rfl,inner⟩ := List.cons.inj tail
      rw [List.append_assoc,List.singleton_append] at inner
      rcases List.append_eq_append_iff.mp inner with ⟨n,rfl,after⟩ | ⟨n,whole,rfl⟩
      · cases n with
        | nil => exact ⟨_,[],rfl,by simp,after.symm⟩
        | cons d n =>
          obtain ⟨rfl,_⟩ := List.cons.inj after
          have bracket : ']'.utf8Size = 1 := by decide
          simp only [size_append,size_cons,size_nil] at high
          omega
      · exact ⟨y,n,rfl,whole,rfl⟩
  · rw [size_append] at low
    omega

/-- No line ends within a placeholder. -/
theorem label_plain : ∀ rule ∈ RULES, ∀ c ∈ label rule ++ [']'], c ≠ '\n' ∧ c ≠ '\r' ∧ c ≠ '@' := by
  have checked : (RULES.all fun rule => (label rule ++ [']']).all fun c => c != '\n' && c != '\r' && c != '@') = true := by
    decide +kernel
  intro rule named c inside
  have plain := List.all_eq_true.mp (List.all_eq_true.mp checked rule named) c inside
  simpa [and_assoc] using plain

/-- A part of a text that stays out of a placeholder: a token that begins inside of one begins
    with a character of it, and one that ends inside goes from before it into it. -/
theorem leaves_of_sides {text a token b : Text} (parts : text = a ++ (token ++ b)) {name : String}
    (begins : ∀ rule ∈ RULES, ∀ x y z w, a = x ++ '[' :: y → label rule = y ++ z → token ++ b ≠ z ++ ']' :: w)
    (ends : ∀ rule ∈ RULES, ∀ x y z w, a ++ token = x ++ '[' :: y → label rule = y ++ z → b ≠ z ++ ']' :: w) :
    LeavesWhole text ⟨size a,size a + size token,name⟩ := by
  intro start stop genuine cuts
  obtain ⟨rule,named,x,w,here,rfl,rfl⟩ := genuine.stands
  rcases cuts with ⟨low,high⟩ | ⟨low,high⟩
  · obtain ⟨y,z,first,whole,rest⟩ := inside_placeholder (here.symm.trans parts) low high
    exact begins rule named x y z w first whole rest
  · have along : text = (a ++ token) ++ b := by rw [parts,List.append_assoc]
    obtain ⟨y,z,first,whole,rest⟩ := inside_placeholder (here.symm.trans along) (by rwa [size_append]) (by rwa [size_append])
    exact ends rule named x y z w first whole rest

/-- Inside of a placeholder a detector finds nothing. -/
theorem nothing_inside (plain : Plain libraries) {here : Text → Text → List Span} (listed : here ∈ localDetectors libraries) {rule : String}
    (named : rule ∈ RULES) {before x y z w : Text} (first : before.reverse = x ++ '[' :: y) (whole : label rule = y ++ z) :
    here before (z ++ ']' :: w) = [] := by
  have reversed : before = y.reverse ++ '[' :: x.reverse := by
    rw [← List.reverse_reverse before,first]
    simp
  rw [reversed]
  refine (((plain.bracket (Or.inl rfl)).separates here listed).before _ _ _).mpr ?_
  cases z with
  | nil => exact ((plain.bracket (Or.inr rfl)).separates here listed).self_ _ _
  | cons d z =>
    refine (((plain.bracket (Or.inr rfl)).separates here listed).after _ _ _ _).mpr ?_
    have quiet := walk_eq_nil.mp (quiet_label plain named here listed) y d z whole
    rwa [List.append_nil] at quiet

/-- A token that begins where it is found, and has no bracket in it or goes to the end of a line. -/
theorem leaves_token (plain : Plain libraries) {here : Text → Text → List Span} (listed : here ∈ localDetectors libraries)
    (tokens : ∀ before rest, ∀ span ∈ here before rest, ∃ token b name, rest = token ++ b ∧ span = ⟨size before,size before + size token,name⟩ ∧
      ('[' ∉ token ∨ ∀ c ∈ b.head?, c = '\n' ∨ c = '\r')) {text : Text} : ∀ span ∈ walk here [] text, LeavesWhole text span := by
  intro span found
  obtain ⟨x,c,y,rfl,hit⟩ := mem_walk.mp found
  rw [List.append_nil] at hit
  obtain ⟨token,b,name,split,rfl,kind⟩ := tokens _ _ span hit
  have parts : x ++ c :: y = x ++ (token ++ b) := by rw [split]
  rw [size_reverse]
  refine leaves_of_sides parts (fun rule named u v z w first whole rest => ?_) fun rule named u v z w first whole rest => ?_
  · rw [split,rest,nothing_inside plain listed named ((List.reverse_reverse x).trans first) whole] at hit
    cases hit
  · rcases kind with free | line
    · -- the opening bracket stands before the token, and the token begins inside
      obtain ⟨m,rfl⟩ : ∃ m, x = u ++ '[' :: m := by
        rcases List.append_eq_append_iff.mp first with ⟨m,rfl,tail⟩ | ⟨m,rfl,tail⟩
        · exact absurd (tail ▸ List.mem_append_right _ List.mem_cons_self) free
        · cases m with
          | nil =>
            rw [List.nil_append] at tail
            exact absurd (tail ▸ List.mem_cons_self) free
          | cons d m =>
            obtain ⟨rfl,_⟩ := List.cons.inj tail
            exact ⟨m,rfl⟩
      rw [List.append_assoc,List.cons_append] at first
      obtain rfl := (List.cons.inj (List.append_cancel_left first)).2
      rw [List.append_assoc] at whole
      rw [split,rest,← List.append_assoc,nothing_inside plain listed named (List.reverse_reverse _) whole] at hit
      cases hit
    · have last : ∃ d ∈ b.head?, d ∈ label rule ++ [']'] := by
        rw [rest,whole]
        cases z with
        | nil => exact ⟨']',rfl,by simp⟩
        | cons d z => exact ⟨d,rfl,by simp⟩
      obtain ⟨d,head,inside⟩ := last
      obtain ⟨newline,carriage,_⟩ := label_plain rule named d inside
      rcases line d head with rfl | rfl
      · exact newline rfl
      · exact carriage rfl

/-- A line goes up to its end. -/
theorem dropCr_rest (rest : Text) : ∃ b, rest = dropCr (rest.takeWhile (· != '\n')) ++ b ∧ ∀ c ∈ b.head?, c = '\n' ∨ c = '\r' := by
  have newline : ∀ c ∈ (rest.dropWhile (· != '\n')).head?, c = '\n' := by
    intro c first
    have := List.head?_dropWhile_not (· != '\n') rest
    rw [first] at this
    simpa using this
  have split : rest = rest.takeWhile (· != '\n') ++ rest.dropWhile (· != '\n') := List.takeWhile_append_dropWhile.symm
  unfold dropCr
  by_cases cr : (rest.takeWhile (· != '\n')).getLast? = some '\r'
  · rw [if_pos cr]
    refine ⟨'\r' :: rest.dropWhile (· != '\n'),?_,fun c first => Or.inr (Option.some.inj first).symm⟩
    have line := List.dropLast_append_getLast? '\r' cr
    conv => lhs; rw [split,← line]
    rw [List.append_assoc,List.singleton_append]
  · rw [if_neg cr]
    exact ⟨_,split,fun c first => Or.inl (newline c first)⟩

theorem leaves_provider (plain : Plain libraries) {text : Text} : ∀ span ∈ providerHits libraries text, LeavesWhole text span := by
  intro span found
  obtain ⟨p,listed,hit⟩ := List.mem_flatMap.mp found
  have member : provider_here libraries p.1 p.2 ∈ localDetectors libraries := List.mem_append_left _ (List.mem_map.mpr ⟨p,listed,rfl⟩)
  refine leaves_token plain member (fun before rest span here => ?_) span hit
  obtain ⟨present,rfl⟩ := provider_here_shape here
  by_cases key : p.2 = "-----BEGIN"
  · obtain ⟨b,split,line⟩ := dropCr_rest rest
    refine ⟨_,b,_,?_,rfl,Or.inr line⟩
    unfold captured
    rw [if_pos key]
    exact split
  · obtain ⟨b,split⟩ : captured libraries p.2 rest <+: rest := captured_prefix present
    refine ⟨_,b,_,split.symm,rfl,Or.inl fun bracket => ?_⟩
    unfold captured at bracket
    rw [if_neg key,List.mem_append] at bracket
    rcases bracket with needle | body
    · exact (secret_prefixes_plain p listed).1 needle
    · have := List.mem_takeWhile_imp body
      rw [(plain.bracket (Or.inl rfl)).token_body] at this
      cases this

theorem leaves_hex (plain : Plain libraries) {text : Text} : ∀ span ∈ walk (hex_here libraries) [] text, LeavesWhole text span := by
  have member : hex_here libraries ∈ localDetectors libraries := List.mem_append_right _ (by simp)
  refine leaves_token plain member fun before rest span here => ?_
  obtain ⟨_,rfl⟩ := hex_here_shape here
  refine ⟨_,_,_,List.takeWhile_append_dropWhile.symm,rfl,Or.inl fun bracket => ?_⟩
  exact absurd (List.mem_takeWhile_imp bracket) (by decide)

theorem leaves_entropy (plain : Plain libraries) {text : Text} : ∀ span ∈ walk (entropy_here libraries) [] text, LeavesWhole text span := by
  have member : entropy_here libraries ∈ localDetectors libraries := List.mem_append_right _ (by simp)
  refine leaves_token plain member fun before rest span here => ?_
  obtain ⟨_,rfl⟩ := entropy_here_shape here
  refine ⟨_,_,_,List.takeWhile_append_dropWhile.symm,rfl,Or.inl fun bracket => ?_⟩
  exact absurd (List.mem_takeWhile_imp bracket) (by decide)

/-- An address has no bracket in it, and no placeholder has its sign. -/
theorem leaves_email (plain : Plain libraries) {text : Text} : ∀ span ∈ walk (email_here libraries) [] text, LeavesWhole text span := by
  intro span found
  obtain ⟨x,c,y,rfl,hit⟩ := mem_walk.mp found
  obtain ⟨a,user,host,b,parts,rfl,local_,domain⟩ := email_here_shape hit
  rw [List.append_nil,List.reverse_reverse] at parts
  have sign : ∀ rule ∈ RULES, '@' ∉ label rule := fun rule named inside => (label_plain rule named _ (List.mem_append_left _ inside)).2.2 rfl
  refine leaves_of_sides parts (fun rule named u v z w first whole rest => ?_) fun rule named u v z w first whole rest => ?_
  · rw [List.append_assoc,List.cons_append] at rest
    rcases two_places (by decide) rest with ⟨m,rfl,_⟩ | ⟨m,rfl,_⟩
    · exact sign rule named (by rw [whole]; simp)
    · have := local_ ']' (by simp)
      rw [(plain.bracket (Or.inr rfl)).email_local] at this
      cases this
  · rw [← List.append_assoc] at first
    rcases two_places (by decide) first with ⟨m,_,rfl⟩ | ⟨m,_,rfl⟩
    · have := domain '[' (by simp)
      rw [(plain.bracket (Or.inl rfl)).email_domain] at this
      cases this
    · exact sign rule named (by rw [whole]; simp)

/-- A password ends at a sign that no placeholder has. -/
theorem leaves_url {text : Text} {span : Span} (hit : UrlHit 0 text span)
    (begins : ∀ start stop, Genuine text start stop → ¬ (start < span.start ∧ span.start < stop)) : LeavesWhole text span := by
  rintro start stop genuine (first | ⟨low,high⟩)
  · exact begins start stop genuine first
  · obtain ⟨before,authority,after,user,secret,host,visits,credential,rfl⟩ := hit
    obtain ⟨rule,named,a,b,here,rfl,rfl⟩ := genuine.stands
    have single : ':'.utf8Size = 1 := by decide
    have parts : text = (before ++ (user ++ ':' :: secret)) ++ '@' :: (host ++ after) := by
      rw [visits.parts,credential.parts]
      simp only [List.append_assoc,List.cons_append]
    have place : (passwordSpan (0 + size before) user secret).stop = size (before ++ (user ++ ':' :: secret)) := by
      simp only [passwordSpan,size_append,size_cons]
      omega
    rw [place] at low high
    obtain ⟨y,z,_,whole,rest⟩ := inside_placeholder (here.symm.trans parts) low high
    have sign : '@' ∈ label rule ++ [']'] := by
      rw [whole]
      cases z with
      | nil => exact absurd (List.cons.inj rest).1 (by decide)
      | cons d z =>
        obtain ⟨rfl,_⟩ := List.cons.inj rest
        simp
    exact (label_plain rule named _ sign).2.2 rfl

/-- A genuine placeholder is in a range that the scan for placeholders returns. -/
theorem Genuine.stretch {text : Text} {start stop : Nat} (genuine : Genuine text start stop) : Stretch text start stop := by
  obtain ⟨rule,named,a,b,rfl,rfl,rfl⟩ := genuine.stands
  exact (placeholder_stretch named).extend a b

/-- What is taken out for the denylist is away from placeholders. -/
theorem denylist_apart {text : Text} {denylist : List Text} {listed : List Span} (denied : denylist_hits text denylist = some listed) {p : Nat}
    (covers : Covers Span.start Span.stop listed p) {start stop : Nat} (genuine : Genuine text start stop) : ¬ (start ≤ p ∧ p < stop) := by
  rintro ⟨first,last⟩
  obtain ⟨placeholders,ranges,hits,held,matched,denied',_,_,union⟩ := denylist_hits_total text denylist
  cases denied.symm.trans denied'
  cases matched.symm.trans (literal_ranges_each text placeholders denylist)
  obtain ⟨q,member,low,high⟩ := (union p).mp covers
  obtain ⟨_,there,here⟩ := List.mem_flatten.mp member
  obtain ⟨literal,_,rfl⟩ := List.mem_map.mp there
  obtain ⟨ranges,found,counts⟩ := literal_ranges_total text placeholders literal
  rw [found] at here
  obtain ⟨_,outside,_⟩ := counts q here
  obtain ⟨r,scanned,before,after⟩ := stretch_listed held genuine.stretch
  have overlap : range_overlaps placeholders q.1 q.2 = true := by
    refine List.any_eq_true.mpr ⟨r,scanned,?_⟩
    simp only [Bool.and_eq_true,decide_eq_true_eq]
    exact ⟨by omega,by omega⟩
  rw [overlap] at outside
  cases outside

theorem leaves_denylist {text : Text} {denylist : List Text} {listed : List Span} (denied : denylist_hits text denylist = some listed) :
    ∀ span ∈ listed, LeavesWhole text span := by
  intro span member start stop genuine cuts
  obtain ⟨_,_,_,_,_,denied',marks,_⟩ := denylist_hits_total text denylist
  cases denied.symm.trans denied'
  have solid := (marks span member).1.solid
  rcases cuts with ⟨low,high⟩ | ⟨low,high⟩
  · exact denylist_apart denied ⟨span,member,le_refl _,solid⟩ genuine ⟨low.le,high⟩
  · exact denylist_apart denied (p := span.stop - 1) ⟨span,member,by omega,by omega⟩ genuine ⟨by omega,by omega⟩

/-! ## What is left of a literal -/

/-- Placeholders that the text has already are all there is of theirs: an opening begins one,
    a match that touches one overlaps no other match of the literal, and no password begins
    inside one. -/
structure Regular (text : Text) (denylist : List Text) : Prop where
  genuine : ∀ a, Occurs OPEN text a → ∃ stop, Genuine text (size a) stop
  separate : ∀ literal ∈ denylist, DENYLIST_MIN_LEN ≤ size literal → ∀ a b, Occurs literal text a → Occurs literal text b →
    ∀ start stop, Genuine text start stop → Meets start stop literal b → size b ≤ size a → size a < size b + size literal → a = b
  urls : ∀ span, UrlHit 0 text span → ∀ start stop, Genuine text start stop → ¬ (start < span.start ∧ span.start < stop)

/-- No span cuts a placeholder of a regular text. -/
theorem Regular.leaves {text : Text} {denylist : List Text} (plain : Plain libraries) (regular : Regular text denylist) {listed urls : List Span}
    (denied : denylist_hits text denylist = some listed) (visited : ∀ span ∈ urls, UrlHit 0 text span) :
    ∀ span ∈ (listed :: signatureHits libraries text urls).flatten, LeavesWhole text span := by
  intro span found
  simp only [signatureHits,List.flatten_cons,List.flatten_nil,List.append_nil,List.mem_append] at found
  rcases found with literal | provider | url | email | hex | entropy
  · exact leaves_denylist denied span literal
  · exact leaves_provider plain span provider
  · exact leaves_url (visited span url) (regular.urls span (visited span url))
  · exact leaves_email plain span email
  · exact leaves_hex plain span hex
  · exact leaves_entropy plain span entropy

/-- A range of the scan for placeholders is a genuine one. -/
theorem Regular.listed {text : Text} {denylist : List Text} (regular : Regular text denylist) {placeholders : List (Nat × Nat)}
    (held : placeholder_spans text = some placeholders) : ∀ r ∈ placeholders, Genuine text r.1 r.2 := by
  intro r member
  obtain ⟨ranges,held',shape⟩ := placeholder_spans_shape text
  cases held.symm.trans held'
  obtain ⟨a,b,x,y,parts,split,free,rfl⟩ := shape r member
  obtain ⟨stop,rule,named,a',⟨d,whole⟩,start,_⟩ := regular.genuine a ⟨b,parts⟩
  obtain ⟨rfl,tail⟩ := split_unique (parts.symm.trans whole) start
  have same : x ++ ']' :: y = (OPEN ++ rule.toList) ++ ']' :: d := by
    rw [← split,tail,placeholder,List.append_assoc,List.singleton_append]
  have label : ']' ∉ OPEN ++ rule.toList := by
    rw [List.mem_append,not_or]
    exact ⟨by decide,names_plain rule named⟩
  obtain ⟨rfl,rfl⟩ := first_unique same free label
  have single : ']'.utf8Size = 1 := by decide
  refine ⟨rule,named,a,⟨y,whole⟩,rfl,?_⟩
  rw [placeholder,size_append (OPEN ++ rule.toList),size_cons,size_nil,single]
  omega

theorem Genuine.extend {text : Text} {start stop : Nat} (genuine : Genuine text start stop) (a b : Text) :
    Genuine (a ++ (text ++ b)) (size a + start) (size a + stop) := by
  obtain ⟨rule,named,c,d,rfl,rfl,rfl⟩ := genuine.stands
  exact ⟨rule,named,a ++ c,⟨d ++ b,by simp only [List.append_assoc]⟩,(size_append a c).symm,by rw [size_append,Nat.add_assoc]⟩

theorem Genuine.solid {text : Text} {start stop : Nat} (genuine : Genuine text start stop) : start < stop := by
  obtain ⟨rule,_,a,_,_,rfl,rfl⟩ := genuine.stands
  have := placeholder_size rule
  omega

/-- A placeholder within a part of a text. -/
theorem Genuine.part {x kept y : Text} {start stop : Nat} (genuine : Genuine (x ++ (kept ++ y)) start stop) (low : size x ≤ start)
    (high : stop ≤ size x + size kept) : ∃ s t, start = size x + s ∧ stop = size x + t ∧ Genuine kept s t := by
  obtain ⟨rule,named,a,b,whole,rfl,rfl⟩ := genuine.stands
  obtain ⟨c,rfl,inner⟩ := split_before whole low
  rw [← List.append_assoc c] at inner
  obtain ⟨d,rfl,_⟩ := split_before inner.symm (by
    simp only [size_append] at high ⊢
    omega)
  exact ⟨size c,size c + size (placeholder rule),size_append x c,by rw [size_append,Nat.add_assoc],
    rule,named,c,⟨d,by rw [List.append_assoc]⟩,rfl,rfl⟩

theorem genuine_stands : Stands Genuine where
  extend genuine a b := genuine.extend a b
  placeholder {rule} named := ⟨rule,named,[],⟨[],by simp⟩,rfl,by simp⟩

/-- A range that meets a kept part and is not cut lies in it. -/
theorem genuine_kept {pieces : List (Text × Finding)} {last kept : Text} {I J : List Item}
    (parts : items pieces last = I ++ (kept.map Sum.inl ++ J)) (starts : I = [] ∨ ∃ I' f, I = I' ++ [Sum.inr f])
    (stops : J = [] ∨ ∃ f J', J = Sum.inr f :: J')
    (leaves : ∀ span ∈ laid 0 pieces, LeavesWhole (weave Finding.token pieces last) span) {start stop p : Nat}
    (genuine : Genuine (weave Finding.token pieces last) start stop) (low : size (raws I) ≤ p) (high : p < size (raws I) + size kept)
    (inside : start ≤ p ∧ p < stop) : size (raws I) ≤ start ∧ stop ≤ size (raws I) + size kept := by
  constructor
  · by_contra early
    rcases starts with rfl | ⟨I',f,rfl⟩
    · exact early (Nat.zero_le _)
    · -- the token before the part ends inside of the range
      rw [List.append_assoc] at parts
      have member := (mem_laid last (n := 0)).mpr ⟨I',f,_,parts,rfl⟩
      refine leaves _ member start stop genuine (Or.inr ?_)
      simp only [raws_append,raws_cons,raws_nil,raw,size_append,size_nil] at early low ⊢
      omega
  · by_contra late
    rcases stops with rfl | ⟨f,J',rfl⟩
    · obtain ⟨rule,_,a,b,whole,rfl,rfl⟩ := genuine.stands
      have sizes := congrArg size whole
      have total := congrArg (fun I => size (raws I)) parts
      simp only [raws_items,raws_append,raws_kept,raws_nil,size_append,size_nil] at sizes total
      omega
    · rw [← List.append_assoc] at parts
      have member := (mem_laid last (n := 0)).mpr ⟨_,f,J',parts,rfl⟩
      refine leaves _ member start stop genuine (Or.inl ?_)
      simp only [raws_append,raws_kept,size_append] at late ⊢
      omega

/-- A redacted text that was regular has no match of a literal of the denylist left, away from
    its placeholders. -/
theorem redact_clean (plain : Plain libraries) {text out : Text} {denylist : List Text} {findings : List Finding} (regular : Regular text denylist)
    (redacted : redact_text_with_denylist libraries text denylist = some (out,findings)) : ∀ literal a, ¬ Exposed out denylist literal a := by
  intro literal a exposed
  have narrow : ¬ WideSeparator text := by
    intro wide
    unfold redact_text_with_denylist at redacted
    rw [collects_none wide] at redacted
    cases redacted
  obtain ⟨listed,urls,spans,denied,visited,members,collected,ordered,perm⟩ := collects narrow libraries denylist
  obtain ⟨_,_,_,_,_,denied',marks,chain,_⟩ := denylist_hits_total text denylist
  cases denied.symm.trans denied'
  obtain ⟨pieces,last,⟨whole,first⟩,rfl⟩ := redacts_of_spans collected ordered
  cases redacted.symm.trans first
  have hits : ∀ span ∈ laid 0 pieces, span ∈ (listed :: signatureHits libraries text urls).flatten := fun span member =>
    (mem_foldl_fit (perm.mem_iff.mp member)).resolve_left List.not_mem_nil
  have named : ∀ f ∈ pieces.map Prod.snd, f.rule ∈ RULES := by
    intro f member
    obtain ⟨span,there,same,_⟩ := laid_token member
    rw [← same]
    rcases List.mem_append.mp (hits span there) with literal | other
    · rw [(marks span literal).2]
      decide
    · exact rule_of_signature (fun span member => (members span).mp member) span other
  have leaves : ∀ span ∈ laid 0 pieces, LeavesWhole (weave Finding.token pieces last) span := fun span member =>
    whole ▸ regular.leaves plain denied (fun span member => (members span).mp member) span (hits span member)
  have some_ : literal ≠ [] := by
    rintro rfl
    have := exposed.long
    unfold DENYLIST_MIN_LEN at this
    simp at this
  have long := size_pos some_
  obtain ⟨kept,member,a',⟨b',occurs⟩,apart⟩ := occurs_kept genuine_stands some_ named exposed.occurs exposed.outside
  obtain ⟨I,J,parts,starts,stops⟩ := keptParts_items member
  have along : text = (raws I ++ a') ++ (literal ++ (b' ++ raws J)) := by
    rw [whole,← raws_items,parts,raws_append,raws_append,raws_kept,occurs]
    simp only [List.append_assoc]
  have room : size a' + size literal ≤ size kept := by
    rw [occurs,size_append,size_append]
    omega
  obtain ⟨placeholders,held⟩ := placeholder_spans_total text
  obtain ⟨ranges,ran,_⟩ := literal_ranges_total text placeholders literal
  obtain ⟨b,there,before,reaches,counts⟩ := literal_ranges_meet exposed.long ran ⟨_,along⟩
  by_cases away : range_overlaps placeholders (size b) (size b + size literal) = false
  · -- the match that is found would be taken out, and this one with it
    have covered := denylist_covers exposed.listed denied held ran (counts away) before reaches
    refine kept_open parts (p := size (raws I ++ a')) ?_ ?_ (covered.mono fun span member => perm.mem_iff.mpr ?_)
    · rw [size_append]
      omega
    · rw [size_append]
      omega
    · rw [List.flatten_cons,List.foldl_append,denylist_fits denied]
      exact ( foldl_fit_prefix _ _).subset member
  · -- it touches a placeholder, which is kept with it
    obtain ⟨r,scanned,overlap⟩ := List.any_eq_true.mp (Bool.not_eq_false _ |>.mp away)
    simp only [Bool.and_eq_true,decide_eq_true_eq] at overlap
    have genuine := regular.listed held r scanned
    have same := regular.separate literal exposed.listed exposed.long _ b ⟨_,along⟩ there r.1 r.2 genuine ⟨overlap.1,overlap.2⟩ before reaches
    subst same
    rw [size_append] at overlap
    have solid : r.1 < r.2 := genuine.solid
    rw [whole] at genuine
    have within := genuine_kept parts starts stops leaves genuine (p := max r.1 (size (raws I) + size a')) (by omega) (by omega) (by omega)
    rw [← raws_items,parts,raws_append,raws_append,raws_kept] at genuine
    obtain ⟨start,stop,first,second,inner⟩ := genuine.part within.1 within.2
    exact apart start stop inner ⟨by omega,by omega⟩

end MemoryEngine.Redact
