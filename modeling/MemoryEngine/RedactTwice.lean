import MemoryEngine.RedactCoverage

/-! Redacting once more. The first pass replaces what it recognises, and what it keeps then
stands beside a bracket instead of a token: the second pass finds something where a kept
part holds a hit of its own, or where a placeholder has come into a URL. -/

namespace MemoryEngine.Redact
open ByteText Intervals

variable {libraries : RedactLibraries}

/-! ## Characters and tokens -/

/-- A character that is kept, or a token that is taken out. -/
abbrev Item := Char ⊕ Finding

def raw : Item → Text
  | .inl c => [c]
  | .inr f => f.token

def raws (items : List Item) : Text := items.flatMap raw
@[simp] theorem raws_nil : raws [] = [] := rfl
@[simp] theorem raws_append (I J : List Item) : raws (I ++ J) = raws I ++ raws J := List.flatMap_append
@[simp] theorem raws_cons (i : Item) (I : List Item) : raws (i :: I) = raw i ++ raws I := rfl
@[simp] theorem raws_kept (text : Text) : raws (text.map Sum.inl) = text := by
  induction text with
  | nil => rfl
  | cons c text ih =>
    rw [List.map_cons,raws_cons,ih]
    rfl

def items (pieces : List (Text × Finding)) (last : Text) : List Item :=
  pieces.foldr (fun piece rest => piece.1.map Sum.inl ++ Sum.inr piece.2 :: rest) (last.map Sum.inl)

@[simp] theorem items_cons (kept : Text) (f : Finding) (pieces : List (Text × Finding)) (last : Text) :
    items ((kept,f) :: pieces) last = kept.map Sum.inl ++ Sum.inr f :: items pieces last := rfl

theorem raws_items (pieces : List (Text × Finding)) (last : Text) : raws (items pieces last) = weave Finding.token pieces last := by
  induction pieces with
  | nil => exact raws_kept last
  | cons piece pieces ih =>
    obtain ⟨kept,f⟩ := piece
    rw [items_cons,raws_append,raws_kept,raws_cons,ih]
    rfl

theorem mem_items {pieces : List (Text × Finding)} {last : Text} {f : Finding} :
    Sum.inr f ∈ items pieces last ↔ f ∈ pieces.map Prod.snd := by
  induction pieces with
  | nil => simp [items]
  | cons piece pieces ih =>
    obtain ⟨kept,g⟩ := piece
    rw [items_cons,List.mem_append,List.mem_cons,ih]
    simp

/-- A kept part before a token, and what goes before the token. -/
theorem before_token {kept : Text} {I J J' : List Item} {f : Finding} (same : kept.map Sum.inl ++ J = I ++ Sum.inr f :: J') :
    ∃ I', I = kept.map Sum.inl ++ I' ∧ J = I' ++ Sum.inr f :: J' := by
  rcases List.append_eq_append_iff.mp same with ⟨m,rfl,tail⟩ | ⟨m,parts,tail⟩
  · exact ⟨m,rfl,tail⟩
  · cases m with
    | nil =>
      rw [List.append_nil] at parts
      exact ⟨[],by rw [parts,List.append_nil],tail.symm⟩
    | cons i m =>
      obtain ⟨rfl,_⟩ := List.cons.inj tail
      have member : Sum.inr f ∈ kept.map (Sum.inl : Char → Item) := parts ▸ List.mem_append_right _ List.mem_cons_self
      obtain ⟨_,_,other⟩ := List.mem_map.mp member
      cases other

/-- The spans are those of the tokens among the items. -/
theorem mem_laid {pieces : List (Text × Finding)} (last : Text) {n : Nat} {span : Span} : span ∈ laid n pieces ↔
    ∃ I f J, items pieces last = I ++ Sum.inr f :: J ∧ span = ⟨n + size (raws I),n + size (raws I) + size f.token,f.rule⟩ := by
  induction pieces generalizing n with
  | nil =>
    constructor
    · intro none_
      cases none_
    · rintro ⟨I,f,J,same,_⟩
      have member : Sum.inr f ∈ items [] last := same ▸ List.mem_append_right _ List.mem_cons_self
      cases mem_items.mp member
  | cons piece pieces ih =>
    obtain ⟨kept,g⟩ := piece
    rw [laid,items_cons,List.mem_cons,ih]
    constructor
    · rintro (rfl | ⟨I,f,J,same,rfl⟩)
      · exact ⟨kept.map Sum.inl,g,items pieces last,rfl,by rw [raws_kept]⟩
      · refine ⟨kept.map Sum.inl ++ Sum.inr g :: I,f,J,by rw [same,List.append_assoc,List.cons_append],?_⟩
        simp only [raws_append,raws_kept,raws_cons,raw,size_append,Nat.add_assoc]
    · rintro ⟨I,f,J,same,rfl⟩
      obtain ⟨I',rfl,tail⟩ := before_token same
      cases I' with
      | nil =>
        obtain ⟨first,_⟩ := List.cons.inj tail
        cases first
        left
        rw [List.append_nil,raws_kept]
      | cons i I' =>
        obtain ⟨rfl,later⟩ := List.cons.inj tail
        refine Or.inr ⟨I',f,J,later,?_⟩
        simp only [raws_append,raws_kept,raws_cons,raw,size_append,Nat.add_assoc]

theorem covers_laid {pieces : List (Text × Finding)} (last : Text) {n p : Nat} : Covers Span.start Span.stop (laid n pieces) p ↔
    ∃ I f J, items pieces last = I ++ Sum.inr f :: J ∧ n + size (raws I) ≤ p ∧ p < n + size (raws I) + size f.token := by
  constructor
  · rintro ⟨span,member,low,high⟩
    obtain ⟨I,f,J,same,rfl⟩ := (mem_laid last).mp member
    exact ⟨I,f,J,same,low,high⟩
  · rintro ⟨I,f,J,same,low,high⟩
    exact ⟨_,(mem_laid last).mpr ⟨I,f,J,same,rfl⟩,low,high⟩

/-- What is kept is in no span. -/
theorem kept_open {pieces : List (Text × Finding)} {last : Text} {I J : List Item} {kept : Text}
    (parts : items pieces last = I ++ (kept.map Sum.inl ++ J)) {p : Nat} (low : size (raws I) ≤ p) (high : p < size (raws I) + size kept) :
    ¬ Covers Span.start Span.stop (laid 0 pieces) p := by
  rw [covers_laid last]
  rintro ⟨I',f,J',same,low',high'⟩
  rw [Nat.zero_add] at low' high'
  rcases List.append_eq_append_iff.mp (parts.symm.trans same) with ⟨m,rfl,tail⟩ | ⟨m,rfl,tail⟩
  · obtain ⟨m',rfl,_⟩ := before_token tail
    simp only [raws_append,raws_kept,size_append] at low'
    omega
  · cases m with
    | nil =>
      rw [List.nil_append] at tail
      obtain ⟨m',nothing,_⟩ := before_token (I := []) tail.symm
      have empty : kept = [] := by
        cases kept with
        | nil => rfl
        | cons c kept => cases nothing
      rw [empty,size_nil] at high
      omega
    | cons i m =>
      obtain ⟨rfl,_⟩ := List.cons.inj tail
      simp only [raws_append,raws_cons,raw,size_append] at low
      omega

/-- A part between two stretches that are taken out, or at an end of the text. -/
def Gap (hit : Nat → Prop) (text kept : Text) : Prop :=
  ∃ a b, text = a ++ (kept ++ b) ∧ (∀ p, size a ≤ p → p < size a + size kept → ¬ hit p) ∧
    (a = [] ∨ hit (size a - 1)) ∧ (b = [] ∨ hit (size a + size kept))

/-- The parts that are kept. -/
def keptParts (pieces : List (Text × Finding)) (last : Text) : List Text := pieces.map Prod.fst ++ [last]

theorem keptParts_items {pieces : List (Text × Finding)} {last kept : Text} (member : kept ∈ keptParts pieces last) :
    ∃ I J, items pieces last = I ++ (kept.map Sum.inl ++ J) ∧ (I = [] ∨ ∃ I' f, I = I' ++ [Sum.inr f]) ∧ (J = [] ∨ ∃ f J', J = Sum.inr f :: J') := by
  induction pieces with
  | nil =>
    cases List.mem_singleton.mp member
    exact ⟨[],[],by simp [items],Or.inl rfl,Or.inl rfl⟩
  | cons piece pieces ih =>
    obtain ⟨first,f⟩ := piece
    rcases List.mem_cons.mp member with rfl | later
    · exact ⟨[],Sum.inr f :: items pieces last,rfl,Or.inl rfl,Or.inr ⟨f,_,rfl⟩⟩
    · obtain ⟨I,J,parts,start,stop⟩ := ih later
      refine ⟨first.map Sum.inl ++ Sum.inr f :: I,J,by rw [items_cons,parts,List.append_assoc,List.cons_append],Or.inr ?_,stop⟩
      rcases start with rfl | ⟨I',g,rfl⟩
      · exact ⟨_,f,rfl⟩
      · exact ⟨first.map Sum.inl ++ Sum.inr f :: I',g,by rw [List.append_assoc,List.cons_append]⟩

theorem VisitsUrl.shape {text before authority after : Text} (visits : VisitsUrl text before authority after) :
    (∃ b, before = b ++ "://".toList) ∧ (∀ c ∈ authority, endsAuthority c = false) ∧ ∀ c ∈ after.head?, endsAuthority c = true := by
  induction visits with
  | first earliest within ends => exact ⟨⟨_,rfl⟩,within,ends⟩
  | @next before authority _ _ _ _ c visited within ends narrow later ih =>
    obtain ⟨⟨b,rfl⟩,rest⟩ := ih
    exact ⟨⟨before ++ ("://".toList ++ (authority ++ c :: b)),by simp only [List.append_assoc,List.cons_append]⟩,rest⟩

/-- The part of a text after the end of a scheme that is not taken out, up to a character that is not, and before the
    first such character that ends an authority. -/
structure InAuthority (hit : Nat → Prop) (text a b : Text) (d : Char) (c : Text) : Prop where
  parts : text = a ++ ("://".toList ++ (b ++ d :: c))
  scheme : ∀ p, size a ≤ p → p < size a + 3 → ¬ hit p
  char : ¬ hit (size a + 3 + size b)
  within : ∀ x e y, b = x ++ e :: y → endsAuthority e = true → hit (size a + 3 + size x)

/-- What is taken out leaves the URLs as they are: before an at sign of an authority nothing is taken out and no
    password stands, and no authority ends at a wide separator. -/
structure UrlsStay (hit : Nat → Prop) (text : Text) : Prop where
  at_sign : ∀ a b c, InAuthority hit text a b '@' c →
    (∀ p, size a + 3 ≤ p → p < size a + 3 + size b → ¬ hit p) ∧ ¬ ∃ user secret, b = user ++ ':' :: secret ∧ ':' ∉ user ∧ secret ≠ []
  separator : ∀ a b d c, InAuthority hit text a b d c → endsAuthority d = true → d.utf8Size = 1

section stays
variable {pieces : List (Text × Finding)} {last : Text}

end stays

/-! ## Literals -/

/-- From an opening to the next bracket. -/
def Stretch (text : Text) (start stop : Nat) : Prop :=
  ∃ a x y, text = a ++ (OPEN ++ (x ++ ']' :: y)) ∧ ']' ∉ x ∧ start = size a ∧ stop = size a + (size OPEN + size x) + 1

def Meets (start stop : Nat) (literal a : Text) : Prop := size a < stop ∧ start < size a + size literal

/-- Each such stretch is in one that the scan for placeholders returns. -/
theorem stretch_listed {text : Text} {placeholders : List (Nat × Nat)} (held : placeholder_spans text = some placeholders) {start stop : Nat}
    (stretch : Stretch text start stop) : ∃ r ∈ placeholders, r.1 ≤ start ∧ stop ≤ r.2 := by
  obtain ⟨a,x,y,parts,free,rfl,rfl⟩ := stretch
  have visits : ∀ a, Occurs OPEN text a → ∃ step, placeholder_visit text (size a) = some step ∧ ∀ n, step.2 = some n → Boundary text n := by
    rintro b ⟨z,rfl⟩
    rcases placeholder_visit_eq b (OPEN ++ z) with ⟨_,visit⟩ | ⟨_,_,_,_,boundary,visit⟩
    · exact ⟨_,visit,fun n next => by cases next⟩
    · refine ⟨_,visit,fun n next => ?_⟩
      cases next
      exact boundary
  have opens : OPEN ≠ [] := by decide
  have start : Boundary text 0 := ⟨[],text,rfl,rfl⟩
  obtain ⟨b,step,⟨z,whole⟩,low,visited,members,last⟩ := scan_meets opens visits start held ⟨_,parts⟩ (Nat.zero_le _)
  -- the part from the opening that is found to the bracket
  obtain ⟨m,rfl,tail⟩ := split_before (whole.symm.trans parts) low
  have bracket : ']' ∉ OPEN ++ x := by
    rw [List.mem_append,not_or]
    exact ⟨by decide,free⟩
  rw [whole] at visited
  rcases placeholder_visit_eq b (OPEN ++ z) with ⟨none_,_⟩ | ⟨x',y',split,free',_,visit⟩
  · refine absurd ?_ none_
    rw [tail]
    simp
  · rw [visit] at visited
    cases visited
    refine ⟨_,members _ List.mem_cons_self,low,?_⟩
    have same : m ++ ((OPEN ++ x) ++ ']' :: y) = x' ++ ']' :: y' := by rw [← split,tail,List.append_assoc OPEN]
    by_cases inside : ']' ∈ m
    · -- the bracket would come before the opening
      obtain ⟨m₁,m₂,rfl,first⟩ := List.eq_append_cons_of_mem inside
      rw [List.append_assoc,List.cons_append] at same
      obtain ⟨rfl,_⟩ := first_unique same first free'
      have single : ']'.utf8Size = 1 := by decide
      rcases last with here | beyond
      · rw [size_append,size_append,size_cons] at here
        omega
      · have := beyond _ rfl
        rw [size_append,size_append,size_cons] at this
        omega
    · rw [← List.append_assoc] at same
      have free'' : ']' ∉ m ++ (OPEN ++ x) := by
        rw [List.mem_append,not_or]
        exact ⟨inside,bracket⟩
      obtain ⟨rfl,_⟩ := first_unique same free'' free'
      simp only [size_append]
      omega

theorem Stretch.extend {text : Text} {start stop : Nat} (stretch : Stretch text start stop) (a b : Text) :
    Stretch (a ++ (text ++ b)) (size a + start) (size a + stop) := by
  obtain ⟨c,x,y,rfl,free,rfl,rfl⟩ := stretch
  refine ⟨a ++ c,x,y ++ b,by simp only [List.append_assoc,List.cons_append],free,(size_append a c).symm,?_⟩
  rw [size_append]
  omega

theorem names_plain : ∀ rule ∈ RULES, ']' ∉ rule.toList := by decide +kernel

theorem placeholder_stretch {rule : String} (named : rule ∈ RULES) : Stretch (placeholder rule) 0 (size (placeholder rule)) := by
  refine ⟨[],rule.toList,[],rfl,names_plain rule named,rfl,?_⟩
  have closing : size [']'] = 1 := by decide
  rw [placeholder,size_append,size_append,closing,size_nil]
  omega

/-- A kind of range that a placeholder is, in any text around it. -/
structure Stands (kind : Text → Nat → Nat → Prop) : Prop where
  extend : ∀ {text : Text} {start stop : Nat}, kind text start stop → ∀ a b, kind (a ++ (text ++ b)) (size a + start) (size a + stop)
  placeholder : ∀ {rule : String}, rule ∈ RULES → kind (placeholder rule) 0 (size (placeholder rule))

/-- A match that meets no placeholder is within a kept part, and meets no such range of it. -/
theorem occurs_kept {kind : Text → Nat → Nat → Prop} (stands : Stands kind) {literal : Text} (solid : literal ≠ [])
    {pieces : List (Text × Finding)} {last a : Text}
    (named : ∀ f ∈ pieces.map Prod.snd, f.rule ∈ RULES) (occurs : Occurs literal (weave (fun f => placeholder f.rule) pieces last) a)
    (free : ∀ start stop, kind (weave (fun f => placeholder f.rule) pieces last) start stop → ¬ Meets start stop literal a) :
    ∃ kept ∈ keptParts pieces last, ∃ a', Occurs literal kept a' ∧ ∀ start stop, kind kept start stop → ¬ Meets start stop literal a' := by
  induction pieces generalizing a with
  | nil => exact ⟨last,List.mem_singleton_self last,a,occurs,free⟩
  | cons piece pieces ih =>
    obtain ⟨kept,f⟩ := piece
    rw [weave_cons] at occurs free
    obtain ⟨b,whole⟩ := occurs
    have inside := size_pos solid
    -- the match is on one side of the placeholder
    have beside := free _ _ (stands.extend (stands.placeholder (named f List.mem_cons_self)) kept (weave (fun f => placeholder f.rule) pieces last))
    rw [Meets,not_and_or,not_lt,not_lt,Nat.add_zero] at beside
    rcases beside with after | before
    · rw [← List.append_assoc] at whole
      obtain ⟨a',rfl,tail⟩ := split_before whole (by rwa [size_append])
      obtain ⟨part,member,a'',occurs,apart⟩ := ih (fun g member => named g (List.mem_cons_of_mem _ member)) ⟨b,tail⟩ fun start stop stretch meets => by
        have longer := stands.extend stretch (kept ++ placeholder f.rule) []
        rw [List.append_nil,List.append_assoc] at longer
        refine free _ _ longer ⟨?_,?_⟩
        · have := meets.1
          rw [size_append]
          omega
        · have := meets.2
          simp only [size_append]
          omega
      exact ⟨part,List.mem_cons_of_mem _ member,a'',occurs,apart⟩
    · rw [← List.append_assoc a literal] at whole
      obtain ⟨m,parts,_⟩ := split_before whole.symm (by rwa [size_append])
      rw [List.append_assoc] at parts
      refine ⟨_,List.mem_cons_self,a,⟨m,parts⟩,fun start stop stretch meets => ?_⟩
      have longer := stands.extend stretch [] (placeholder f.rule ++ weave (fun f => placeholder f.rule) pieces last)
      rw [size_nil,Nat.zero_add,Nat.zero_add,List.nil_append] at longer
      exact free _ _ longer meets

/-- What is kept holds nothing of its own, and URLs stay as they are. -/
structure Settled (libraries : RedactLibraries) (text : Text) (denylist : List Text) : Prop where
  nested : HitsNest libraries text denylist
  tokens : ∀ kept, Gap (Recognised libraries text denylist) text kept → detect_provider_prefix libraries kept [] = some [] ∧
    detect_email libraries kept [] = [] ∧ detect_hex_in_context libraries kept [] = [] ∧ detect_high_entropy libraries kept [] = []
  literals : ∀ kept, Gap (Recognised libraries text denylist) text kept → ∀ literal ∈ denylist, DENYLIST_MIN_LEN ≤ size literal → ∀ a,
    Occurs literal kept a → ∃ start stop, Stretch kept start stop ∧ Meets start stop literal a
  urls : UrlsStay (Recognised libraries text denylist) text

theorem Settled.quiet {text kept : Text} {denylist : List Text} (settled : Settled libraries text denylist)
    (gap : Gap (Recognised libraries text denylist) text kept) : ∀ here ∈ localDetectors libraries, Quiet here kept := by
  obtain ⟨provider,email,hex,entropy⟩ := settled.tokens kept gap
  rw [detect_provider_prefix_eq,push_eq] at provider
  unfold detect_email at email
  unfold detect_hex_in_context at hex
  unfold detect_high_entropy at entropy
  rw [push_eq] at email hex entropy
  intro here listed
  rcases List.mem_append.mp listed with token | other
  · obtain ⟨p,member,rfl⟩ := List.mem_map.mp token
    have none_ := foldl_fit_eq_nil.mp (Option.some.inj provider)
    exact List.flatMap_eq_nil_iff.mp none_ p member
  · simp only [List.mem_cons,List.not_mem_nil,or_false] at other
    rcases other with rfl | rfl | rfl
    · exact foldl_fit_eq_nil.mp email
    · exact foldl_fit_eq_nil.mp hex
    · exact foldl_fit_eq_nil.mp entropy

theorem laid_token {pieces : List (Text × Finding)} {f : Finding} (member : f ∈ pieces.map Prod.snd) :
    ∃ span ∈ laid 0 pieces, span.rule = f.rule ∧ span.stop = span.start + size f.token := by
  have listed : Sum.inr f ∈ items pieces [] := mem_items.mpr member
  obtain ⟨I,J,parts⟩ := List.append_of_mem listed
  exact ⟨_,(mem_laid []).mpr ⟨I,f,J,parts,rfl⟩,rfl,rfl⟩

theorem Gap.slice {hit : Nat → Prop} {text kept : Text} (gap : Gap hit text kept) : ∃ i < text.length + 1, ∃ j < text.length + 1,
    kept = (text.drop i).take j ∧ ∀ p < size text, size (text.take i) ≤ p → p < size (text.take i) + size kept → ¬ hit p := by
  obtain ⟨a,b,rfl,free,_⟩ := gap
  refine ⟨a.length,by rw [List.length_append]; omega,kept.length,by simp only [List.length_append]; omega,?_,fun p _ low high => ?_⟩
  · rw [List.drop_left,List.take_left]
  · rw [List.take_left] at low high
    exact free p low high

theorem plain_ascii : Plain .ascii := ⟨by decide,by decide,by decide +kernel⟩

end MemoryEngine.Redact
