import MemoryEngine.RedactPieces

/-! Brackets keep hits apart. Where a bracket stands, what the detectors find on one side
does not depend on the other, so a text is free of hits when its parts are. -/

namespace MemoryEngine.Redact
open ByteText

variable {libraries : RedactLibraries}

/-- Nothing is found in a text. -/
def Quiet (here : Text → Text → List Span) (text : Text) : Prop := walk here [] text = []

/-- A character on whose other side nothing matters to a detector. -/
structure Separates (here : Text → Text → List Span) (c : Char) : Prop where
  before : ∀ b z rest, here (b ++ c :: z) rest = [] ↔ here b rest = []
  after : ∀ b d r z, here b (d :: (r ++ c :: z)) = [] ↔ here b (d :: r) = []
  self_ : ∀ b z, here b (c :: z) = []

/-- What is known of the brackets and of the one name of a rule that is long. -/
structure Plain (libraries : RedactLibraries) : Prop where
  opening : libraries.is_alphanumeric '[' = false
  closing : libraries.is_alphanumeric ']' = false
  name : HIGH_ENTROPY_BITS.le (shannon_entropy libraries "connection-string-password".toList) = false

theorem takeWhile_stop {p : Char → Bool} {c : Char} (stops : p c = false) (x z : Text) : (x ++ c :: z).takeWhile p = x.takeWhile p := by
  induction x with
  | nil => simp [stops]
  | cons d x ih =>
    rw [List.cons_append,List.takeWhile_cons,List.takeWhile_cons,ih]

/-- A bracket, to whom it matters that it is none of the characters the detectors look for. -/
structure Bracket (libraries : RedactLibraries) (c : Char) : Prop where
  alphanumeric : libraries.is_alphanumeric c = false
  kind : c = '[' ∨ c = ']'

theorem Bracket.email_local {c : Char} (bracket : Bracket libraries c) : is_email_local libraries c = false := by
  unfold is_email_local
  rw [bracket.alphanumeric]
  rcases bracket.kind with rfl | rfl <;> decide

theorem Bracket.email_domain {c : Char} (bracket : Bracket libraries c) : is_email_domain libraries c = false := by
  unfold is_email_domain
  rw [bracket.alphanumeric]
  rcases bracket.kind with rfl | rfl <;> decide

theorem Bracket.token_body {c : Char} (bracket : Bracket libraries c) : isTokenBody libraries c = false := by
  unfold isTokenBody
  rw [bracket.alphanumeric]
  rcases bracket.kind with rfl | rfl <;> decide

theorem email_here_elsewhere {before rest : Text} {d : Char} (elsewhere : d ≠ '@') : email_here libraries before (d :: rest) = [] := by
  unfold email_here
  split
  · rename_i same
    exact absurd (List.cons.inj same).1 elsewhere
  · rfl

theorem Bracket.separates_email {c : Char} (bracket : Bracket libraries c) : Separates (email_here libraries) c where
  before b z rest := by
    unfold email_here
    split
    · simp only [takeWhile_stop bracket.email_local,ite_eq_left_iff,List.cons_ne_nil,imp_false]
    · rfl
  after b d r z := by
    by_cases at_ : d = '@'
    · subst at_
      unfold email_here
      simp only [takeWhile_stop bracket.email_domain]
    · rw [email_here_elsewhere at_,email_here_elsewhere at_]
  self_ b z := by
    refine email_here_elsewhere (fun at_ => ?_)
    rcases bracket.kind with other | other
    · cases at_.symm.trans other
    · cases at_.symm.trans other

/-- The word before does not reach over a bracket. -/
theorem Bracket.hex_context {c : Char} (bracket : Bracket libraries c) (b z : Text) :
    has_hex_context_key libraries (b ++ c :: z) = has_hex_context_key libraries b := by
  have stays : (is_whitespace c || ['=',':','"','\'','\x60'].contains c) = false := by
    rcases bracket.kind with rfl | rfl <;> decide
  have word : (libraries.is_alphanumeric c || c == '_') = false := by
    rw [bracket.alphanumeric]
    rcases bracket.kind with rfl | rfl <;> decide
  have trimmed : ((b ++ c :: z).dropWhile fun c => is_whitespace c || ['=',':','"','\'','\x60'].contains c) =
      (b.dropWhile fun c => is_whitespace c || ['=',':','"','\'','\x60'].contains c) ++ c :: z := by
    induction b with
    | nil =>
      rw [List.nil_append,List.dropWhile_cons,if_neg (by rw [stays]; exact Bool.false_ne_true)]
      rfl
    | cons d b ih =>
      rw [List.cons_append,List.dropWhile_cons,List.dropWhile_cons,ih]
      split <;> rfl
  unfold has_hex_context_key
  simp only [trimmed,takeWhile_stop (p := fun c => libraries.is_alphanumeric c || c == '_') word]

theorem Bracket.separates_hex {c : Char} (bracket : Bracket libraries c) : Separates (hex_here libraries) c where
  before b z rest := by
    have plain : is_hex c = false := by rcases bracket.kind with rfl | rfl <;> decide
    have start : (b ++ c :: z).head?.any is_hex = b.head?.any is_hex := by
      cases b with
      | nil => simp [plain]
      | cons d b => rfl
    have line : has_hex_context_key libraries ((b ++ c :: z).takeWhile (· != '\n')) =
        has_hex_context_key libraries (b.takeWhile (· != '\n')) := by
      by_cases whole : ∀ d ∈ b, (d != '\n') = true
      · have goes : (c != '\n') = true := by rcases bracket.kind with rfl | rfl <;> decide
        have inside : b.takeWhile (· != '\n') = b := List.takeWhile_eq_self_iff.mpr whole
        rw [List.takeWhile_append_of_pos whole,List.takeWhile_cons,if_pos goes,bracket.hex_context,inside]
      · obtain ⟨d,member,stop⟩ : ∃ d ∈ b, ¬ (d != '\n') = true := by simpa only [not_forall,exists_prop] using whole
        obtain ⟨x,y,rfl⟩ := List.append_of_mem member
        have ends := fun z => takeWhile_stop (p := fun c => c != '\n') (Bool.eq_false_iff.mpr stop) x z
        rw [List.append_assoc,List.cons_append,ends,ends]
    unfold hex_here
    rw [start,line]
    split
    · rfl
    · simp only [ite_eq_right_iff,List.cons_ne_nil,imp_false]
  after b d r z := by
    have plain : is_hex c = false := by rcases bracket.kind with rfl | rfl <;> decide
    have same := takeWhile_stop plain (d :: r) z
    rw [List.cons_append] at same
    unfold hex_here
    rw [same]
  self_ b z := by
    have plain : is_hex c = false := by rcases bracket.kind with rfl | rfl <;> decide
    have run : (c :: z).takeWhile is_hex = [] := by simp [plain]
    unfold hex_here
    rw [run]
    split <;> rfl

theorem Bracket.separates_entropy {c : Char} (bracket : Bracket libraries c) : Separates (entropy_here libraries) c where
  before b z rest := by
    have splits : is_entropy_split c = true := by rcases bracket.kind with rfl | rfl <;> decide
    have start : ((b ++ c :: z).head?.any fun c => !is_entropy_split c) = b.head?.any fun c => !is_entropy_split c := by
      cases b with
      | nil => simp [splits]
      | cons d b => rfl
    unfold entropy_here
    rw [start]
    split
    · rfl
    · simp only [ite_eq_right_iff,List.cons_ne_nil,imp_false]
  after b d r z := by
    have splits : (!is_entropy_split c) = false := by rcases bracket.kind with rfl | rfl <;> decide
    have same := takeWhile_stop (p := fun c => !is_entropy_split c) splits (d :: r) z
    rw [List.cons_append] at same
    unfold entropy_here
    rw [same]
  self_ b z := by
    have splits : (!is_entropy_split c) = false := by rcases bracket.kind with rfl | rfl <;> decide
    have token : ((c :: z).takeWhile fun c => !is_entropy_split c) = [] := by simp [splits]
    unfold entropy_here
    rw [token]
    split <;> rfl

theorem prefix_stop {needle x z : Text} {c : Char} (elsewhere : c ∉ needle) : needle <+: x ++ c :: z ↔ needle <+: x := by
  constructor
  · intro present
    rcases List.prefix_or_prefix_of_prefix present (List.prefix_append x (c :: z)) with inside | ⟨more,rfl⟩
    · exact inside
    · cases more with
      | nil => simp
      | cons d more =>
        obtain ⟨rest,whole⟩ := present
        rw [List.append_assoc] at whole
        obtain ⟨rfl,_⟩ := List.cons.inj (List.append_cancel_left whole)
        exact absurd (List.mem_append_right _ List.mem_cons_self) elsewhere
  · exact fun present => present.trans (List.prefix_append _ _)

theorem provider_here_eq_nil {rule needle : String} {before rest : Text} : provider_here libraries rule needle before rest = [] ↔
    ¬ (needle.toList <+: rest ∧ precedes before = true ∧ tooPlain needle (captured libraries needle rest) = false) := by
  unfold provider_here
  simp only [ite_eq_right_iff,List.cons_ne_nil,imp_false]

/-- No prefix has a bracket in it. -/
theorem secret_prefixes_plain : ∀ p ∈ SECRET_PREFIXES, '[' ∉ p.2.toList ∧ ']' ∉ p.2.toList := by decide +kernel

theorem Bracket.separates_provider {c : Char} (bracket : Bracket libraries c) {p : String × String} (listed : p ∈ SECRET_PREFIXES) :
    Separates (provider_here libraries p.1 p.2) c where
  before b z rest := by
    have start : precedes (b ++ c :: z) = precedes b := by
      cases b with
      | nil => rcases bracket.kind with rfl | rfl <;> rfl
      | cons d b => rfl
    rw [provider_here_eq_nil,provider_here_eq_nil,start]
  after b d r z := by
    have elsewhere : c ∉ p.2.toList := by
      rcases bracket.kind with rfl | rfl
      · exact (secret_prefixes_plain p listed).1
      · exact (secret_prefixes_plain p listed).2
    rw [provider_here_eq_nil,provider_here_eq_nil,← List.cons_append,prefix_stop elsewhere,not_iff_not]
    refine and_congr_right fun present => and_congr_right fun _ => ?_
    by_cases key : p.2 = "-----BEGIN"
    · simp only [tooPlain,key,bne_self_eq_false,Bool.false_and]
    · obtain ⟨tail,whole⟩ := present
      have same : captured libraries p.2 ((d :: r) ++ c :: z) = captured libraries p.2 (d :: r) := by
        unfold captured
        rw [if_neg key,if_neg key,← whole,List.append_assoc,List.drop_left,List.drop_left,takeWhile_stop bracket.token_body]
      rw [same]
  self_ b z := by
    rw [provider_here_eq_nil]
    rintro ⟨present,_⟩
    obtain ⟨c₀,tail,begins,_⟩ := secret_prefixes_begin p listed
    rw [begins] at present
    have first := (List.cons_prefix_cons.mp present).1
    have plain := secret_prefixes_plain p listed
    rw [begins,first] at plain
    rcases bracket.kind with rfl | rfl
    · exact plain.1 List.mem_cons_self
    · exact plain.2 List.mem_cons_self

/-! ## Placeholders -/

/-- The names of the rules. -/
def RULES : List String :=
  "denylist" :: SECRET_PREFIXES.map Prod.fst ++ ["connection-string-password","email","hex-secret","high-entropy"]

/-- What stands between the brackets of a placeholder. -/
def label (rule : String) : Text := "REDACTED:".toList ++ rule.toList

theorem placeholder_eq (rule : String) : placeholder rule = '[' :: (label rule ++ [']']) := by
  unfold placeholder label OPEN
  rw [show "[REDACTED:".toList = '[' :: "REDACTED:".toList by decide,List.cons_append,List.cons_append]

/-- The detectors that look around a position. -/
def localDetectors (libraries : RedactLibraries) : List (Text → Text → List Span) :=
  SECRET_PREFIXES.map (fun p => provider_here libraries p.1 p.2) ++ [email_here libraries,hex_here libraries,entropy_here libraries]

theorem Plain.bracket (plain : Plain libraries) {c : Char} (kind : c = '[' ∨ c = ']') : Bracket libraries c := by
  refine ⟨?_,kind⟩
  rcases kind with rfl | rfl
  · exact plain.opening
  · exact plain.closing

theorem Bracket.separates {c : Char} (bracket : Bracket libraries c) : ∀ here ∈ localDetectors libraries, Separates here c := by
  intro here listed
  rcases List.mem_append.mp listed with provider | other
  · obtain ⟨p,member,rfl⟩ := List.mem_map.mp provider
    exact bracket.separates_provider member
  · simp only [List.mem_cons,List.not_mem_nil,or_false] at other
    rcases other with rfl | rfl | rfl
    · exact bracket.separates_email
    · exact bracket.separates_hex
    · exact bracket.separates_entropy

/-- No prefix begins a word of a label, no run of digits in it is long, and no long token but one. -/
def labelPlain (before rest : Text) : Bool :=
  SECRET_PREFIXES.all (fun p => !(p.2.toList.isPrefixOf rest && precedes before)) && rest.head? != some '@' &&
    (rest.takeWhile is_hex).length < HEX_SECRET_MIN_LEN && (before.head?.any (fun c => !is_entropy_split c) ||
      (rest.takeWhile fun c => !is_entropy_split c).length < HIGH_ENTROPY_MIN_LEN ||
        (rest.takeWhile fun c => !is_entropy_split c) == "connection-string-password".toList)

theorem labels_plain : ∀ rule ∈ RULES, walk (fun before rest => if labelPlain before rest then [] else [()]) [] (label rule) = [] := by
  decide +kernel

theorem quiet_label (plain : Plain libraries) {rule : String} (named : rule ∈ RULES) : ∀ here ∈ localDetectors libraries, Quiet here (label rule) := by
  intro here listed
  refine walk_eq_nil.mpr fun a d b parts => ?_
  have checked := walk_eq_nil.mp (labels_plain rule named) a d b parts
  rw [ite_eq_left_iff] at checked
  have holds : labelPlain (a.reverse ++ []) (d :: b) = true := by
    by_contra fails
    cases checked fails
  unfold labelPlain at holds
  simp only [Bool.and_eq_true,List.all_eq_true,Bool.not_eq_true',Bool.or_eq_true,decide_eq_true_eq,bne_iff_ne,beq_iff_eq] at holds
  obtain ⟨⟨⟨prefixes,sign⟩,short⟩,token⟩ := holds
  rcases List.mem_append.mp listed with provider | other
  · obtain ⟨p,member,rfl⟩ := List.mem_map.mp provider
    rw [provider_here_eq_nil]
    rintro ⟨present,bounded,_⟩
    have := prefixes p member
    rw [List.isPrefixOf_iff_prefix.mpr present,bounded] at this
    cases this
  · simp only [List.mem_cons,List.not_mem_nil,or_false] at other
    rcases other with rfl | rfl | rfl
    · exact email_here_elsewhere fun at_ => sign (congrArg some at_)
    · unfold hex_here
      split
      · rfl
      · rw [if_neg]
        simp only [Bool.and_eq_true,decide_eq_true_eq]
        omega
    · unfold entropy_here
      split
      · rfl
      · rename_i starts
        rw [if_neg]
        simp only [Bool.and_eq_true,decide_eq_true_eq]
        rintro ⟨⟨long,_⟩,high⟩
        rcases token with (inside | few) | name
        · exact starts inside
        · omega
        · rw [name,plain.name] at high
          cases high

end MemoryEngine.Redact
