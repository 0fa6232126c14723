import Mathlib.Data.List.Sort
import Mathlib.Data.List.Dedup
import MemoryEngine.ByteText
import MemoryEngine.Floats
import MemoryEngine.Ranking

/-! Redaction of secrets. Six detectors, in order of priority, find spans of a text; a
span that overlaps an earlier one is dropped, and the text is rebuilt with a placeholder
for each span that is left. A value is missing where the code would panic. -/

namespace MemoryEngine.Redact
open ByteText Ranking

/-- Unicode tables and the arithmetic of doubles: `char::is_alphanumeric`, the term
    `-p * p.log2()` of a count and the number of characters, and the order of a hash map. -/
structure RedactLibraries where
  is_alphanumeric : Char → Bool
  entropy_term : Nat → Nat → F64
  values : Shuffle (Char × Nat)

/-- `char::is_whitespace`, the White_Space property. -/
def is_whitespace (c : Char) : Bool :=
  (9 ≤ c.toNat && c.toNat ≤ 13) || (0x2000 ≤ c.toNat && c.toNat ≤ 0x200A) ||
    [0x20,0x85,0xA0,0x1680,0x2028,0x2029,0x202F,0x205F,0x3000].contains c.toNat

def SECRET_PREFIXES : List (String × String) :=
  [("aws-access-key","AKIA"),("github-pat","ghp_"),("github-fine-pat","github_pat_"),("openai-key","sk-"),("google-api-key","AIza"),
    ("slack-token","xoxb-"),("slack-token","xoxp-"),("private-key-header","-----BEGIN"),("jwt","eyJ"),("sendgrid","SG.")]

def PREFIX_BOUNDARY_CHARS : List Char :=
  ['"','\'','\x60','(',')','{','}','[',']',':',',',';','=','<','>','?','&','/','@']

def TOKEN_BODY_CHARS : List Char := ['.','_','-','+','/','=']

def ENTROPY_SPLIT_CHARS : List Char := ['"','\'','\x60','{','}','[',']','(',')',':',',',';','=']

def HEX_CONTEXT_KEYS : List String :=
  ["secret","token","key","apikey","password","passwd","pwd","auth","credential","cred"]

def HEX_SECRET_MIN_LEN : Nat := 32
def DENYLIST_MIN_LEN : Nat := 4
def MIN_PREFIXED_SECRET_LEN : Nat := 20
def HIGH_ENTROPY_MIN_LEN : Nat := 20

/-- The double nearest to 4.3. -/
def HIGH_ENTROPY_BITS : F64 := F64.ofDatum (binary64.round (43 / 10))

structure Finding where
  rule : String
  token : Text
  deriving DecidableEq

variable (libraries : RedactLibraries)

/-- Entropy in bits for each character. -/
def shannon_entropy (s : Text) : F64 :=
  if s.length = 0 then F64.ofRat 0 else
    let counts := s.dedup.map fun c => (c,s.count c)
    (libraries.values.order counts).foldl (fun sum count => sum.add (libraries.entropy_term count.2 s.length)) (F64.ofRat 0)

/-- A half-open range of bytes and the rule that found it. -/
structure Span where
  start : Nat
  stop : Nat
  rule : String
  deriving DecidableEq

def overlaps (spans : List Span) (start stop : Nat) : Bool := spans.any fun s => start < s.stop && stop > s.start

/-- A span is added unless it overlaps one that is there. -/
def push (spans : List Span) (span : Span) : List Span :=
  if overlaps spans span.start span.stop then spans else spans ++ [span]

/-! ## The denylist -/

def range_overlaps (ranges : List (Nat × Nat)) (start stop : Nat) : Bool := ranges.any fun r => start < r.2 && stop > r.1

def OPEN : Text := "[REDACTED:".toList

/-- An opening and the next bracket after it. -/
def placeholder_visit (text : Text) (start : Nat) : Option (List (Nat × Nat) × Option Nat) := do
  match find [']'] (← sliceFrom text start) with
  | none => return ([],none)
  | some close_rel => return ([(start,start + close_rel + 1)],some (start + close_rel + 1))

def placeholder_spans (text : Text) : Option (List (Nat × Nat)) := scan text OPEN false (placeholder_visit text) (size text + 1) 0

/-- A match of a literal counts outside the placeholders that are there. -/
def literal_visit (placeholders : List (Nat × Nat)) (literal : Text) (start : Nat) : Option (List (Nat × Nat) × Option Nat) :=
  let stop := start + size literal
  some (if range_overlaps placeholders start stop then [] else [(start,stop)],some (max stop (start + 1)))

/-- The matches of a literal, each after the one before. -/
def literal_ranges (text : Text) (placeholders : List (Nat × Nat)) (literal : Text) : Option (List (Nat × Nat)) :=
  if size literal < DENYLIST_MIN_LEN then some [] else
    scan text literal false (literal_visit placeholders literal) (size text + 1) 0

/-- The order of pairs. -/
def rangeLe (a b : Nat × Nat) : Prop := a.1 < b.1 ∨ a.1 = b.1 ∧ a.2 ≤ b.2

instance : DecidableRel rangeLe := fun a b => inferInstanceAs (Decidable (a.1 < b.1 ∨ a.1 = b.1 ∧ a.2 ≤ b.2))

/-- Ranges that overlap become one. -/
def merge_ranges (cur : Nat × Nat) : List (Nat × Nat) → List (Nat × Nat)
  | [] => [cur]
  | (s,e) :: rest => if s < cur.2 then merge_ranges (cur.1,max cur.2 e) rest else cur :: merge_ranges (s,e) rest

def denylist_hits (text : Text) (denylist : List Text) : Option (List Span) := do
  let placeholders ← placeholder_spans text
  let ranges := (← denylist.mapM (literal_ranges text placeholders)).flatten
  match ranges.insertionSort rangeLe with
  | [] => return []
  | first :: rest => return (merge_ranges first rest).map fun r => ⟨r.1,r.2,"denylist"⟩

def detect_denylist (text : Text) (denylist : List Text) (spans : List Span) : Option (List Span) := do
  return (← denylist_hits text denylist).foldl push spans

/-! ## Prefixes of providers -/

def is_prefix_boundary (text : Text) (byte_pos : Nat) : Option Bool :=
  if byte_pos = 0 then some true else do
    match (← sliceTo text byte_pos).getLast? with
    | some ch => return is_whitespace ch || PREFIX_BOUNDARY_CHARS.contains ch
    | none => return true

def isTokenBody (c : Char) : Bool := libraries.is_alphanumeric c || TOKEN_BODY_CHARS.contains c

/-- The end of the line without its terminator. -/
def line_end (rest : Text) : Option Nat := do
  let line_end := (find ['\n'] rest).getD (size rest)
  if line_end > 0 && (← sliceTo rest line_end).getLast? == some '\r' then return line_end - 1 else return line_end

/-- Where a match of a prefix ends: at the end of the line for a key, after the body of the
    token for the others. -/
def match_end (text : Text) (needle : String) (match_start : Nat) : Option Nat :=
  if needle = "-----BEGIN" then do
    return match_start + (← line_end (← sliceFrom text match_start))
  else do
    let body_start := match_start + size needle.toList
    return body_start + size ((← sliceFrom text body_start).takeWhile (isTokenBody libraries))

/-- Too short for a token of a provider, or without its dots. -/
def tooPlain (needle : String) (captured : Text) : Bool :=
  needle != "-----BEGIN" &&
    (size captured < MIN_PREFIXED_SECRET_LEN || ((needle == "SG." || needle == "eyJ") && !captured.contains '.'))

def provider_hits (text : Text) (rule needle : String) : Option (List Span) :=
  scan text needle.toList true (fun match_start => do
    if !(← is_prefix_boundary text match_start) then return ([],some (match_start + 1)) else
      let stop ← match_end libraries text needle match_start
      let captured ← slice text match_start stop
      if tooPlain needle captured then return ([],some (match_start + 1)) else
        return ([⟨match_start,stop,rule⟩],some (match_start + 1))) (size text + 1) 0

def detect_provider_prefix (text : Text) (spans : List Span) : Option (List Span) := do
  let hits ← SECRET_PREFIXES.mapM fun p => provider_hits libraries text p.1 p.2
  return hits.flatten.foldl push spans

/-! ## Passwords in URLs -/

/-- The characters that end an authority. -/
def endsAuthority (c : Char) : Bool := c == '/' || c == '?' || c == '#' || is_whitespace c

/-- The part of an authority between the first colon and the last at sign. -/
def password (authority_start : Nat) (authority : Text) : Option (List Span) :=
  match rfindChar (· == '@') authority with
  | none => some []
  | some at_pos => do
    match findChar (· == ':') (← sliceTo authority at_pos) with
    | none => return []
    | some colon_pos =>
      let pass_start := authority_start + colon_pos + 1
      let pass_end := authority_start + at_pos
      return if pass_start < pass_end then [⟨pass_start,pass_end,"connection-string-password"⟩] else []

/-- The authority after an occurrence, and where the search goes on. -/
def url_visit (text : Text) (found : Nat) : Option (List Span × Option Nat) := do
  let authority_start := found + 3
  let authority_text ← sliceFrom text authority_start
  let authority_len := (findChar endsAuthority authority_text).getD (size authority_text)
  let hit ← password authority_start (← sliceTo authority_text authority_len)
  return (hit,some (authority_start + authority_len + 1))

def url_hits (text : Text) : Option (List Span) := scan text "://".toList true (url_visit text) (size text + 1) 0

def detect_url_credential (text : Text) (spans : List Span) : Option (List Span) := do
  return (← url_hits text).foldl push spans

/-! ## Hits that are found where they stand -/

def is_email_local (ch : Char) : Bool := libraries.is_alphanumeric ch || ['.','_','%','+','-'].contains ch
def is_email_domain (ch : Char) : Bool := libraries.is_alphanumeric ch || ['.','-'].contains ch

/-- Two letters at least after the last dot of a domain. -/
def validDomain (domain : Text) : Bool :=
  let tld := (domain.reverse.takeWhile (· != '.')).reverse
  domain.contains '.' && !(size tld < 2 || !tld.all Char.isAlpha)

/-- Each at sign, with the local part to its left and the domain to its right. -/
def email_here (before rest : Text) : List Span :=
  match rest with
  | '@' :: after =>
    let local_part := before.takeWhile (is_email_local libraries)
    let domain := after.takeWhile (is_email_domain libraries)
    if local_part.isEmpty || !validDomain domain then [] else
      [⟨size before - size local_part,size before + 1 + size domain,"email"⟩]
  | _ => []

def detect_email (text : Text) (spans : List Span) : List Span := (walk (email_here libraries) [] text).foldl push spans

def is_hex (ch : Char) : Bool := ch.isDigit || (97 ≤ ch.toNat && ch.toNat ≤ 102) || (65 ≤ ch.toNat && ch.toNat ≤ 70)

/-- The word before, in the line up to here with its last character first. -/
def has_hex_context_key (line : Text) : Bool :=
  let trimmed := line.dropWhile fun c => is_whitespace c || ['=',':','"','\'','\x60'].contains c
  let word := (trimmed.takeWhile fun c => libraries.is_alphanumeric c || c == '_').reverse
  !word.isEmpty && ((word.map Char.toLower).splitOn '_').any fun part => HEX_CONTEXT_KEYS.contains (String.ofList part)

/-- A run of hex digits, which begins where no other goes before it. -/
def hex_here (before rest : Text) : List Span :=
  if before.head?.any is_hex then [] else
    let run := rest.takeWhile is_hex
    if HEX_SECRET_MIN_LEN ≤ run.length && has_hex_context_key libraries (before.takeWhile (· != '\n')) then
      [⟨size before,size before + size run,"hex-secret"⟩]
    else []

def detect_hex_in_context (text : Text) (spans : List Span) : List Span := (walk (hex_here libraries) [] text).foldl push spans

def is_entropy_split (ch : Char) : Bool := is_whitespace ch || ENTROPY_SPLIT_CHARS.contains ch

def looks_like_secret_charset (token : Text) : Bool :=
  let special := fun c : Char => ['+','/','=','_','-'].contains c
  token.all (fun c => c.isAlphanum || special c) && (token.any Char.isDigit || token.any special)

/-- A token, which begins where no other character of one goes before it. -/
def entropy_here (before rest : Text) : List Span :=
  if before.head?.any fun c => !is_entropy_split c then [] else
    let token := rest.takeWhile fun c => !is_entropy_split c
    if HIGH_ENTROPY_MIN_LEN ≤ token.length && looks_like_secret_charset token && HIGH_ENTROPY_BITS.le (shannon_entropy libraries token) then
      [⟨size before,size before + size token,"high-entropy"⟩]
    else []

def detect_high_entropy (text : Text) (spans : List Span) : List Span := (walk (entropy_here libraries) [] text).foldl push spans

/-! ## The text that is left -/

def collect_spans (text : Text) (denylist : List Text) : Option (List Span) := do
  let spans ← detect_denylist text denylist []
  let spans ← detect_provider_prefix libraries text spans
  let spans ← detect_url_credential text spans
  let spans := detect_email libraries text spans
  let spans := detect_hex_in_context libraries text spans
  let spans := detect_high_entropy libraries text spans
  return spans.insertionSort fun a b => a.start ≤ b.start

def placeholder (rule : String) : Text := OPEN ++ rule.toList ++ [']']

def rebuild (text : Text) : List Span → Nat → Option (Text × List Finding)
  | [],cursor => do return (← sliceFrom text cursor,[])
  | span :: spans,cursor => do
    let kept ← slice text cursor span.start
    let token ← slice text span.start span.stop
    let (out,findings) ← rebuild text spans span.stop
    return (kept ++ (placeholder span.rule ++ out),⟨span.rule,token⟩ :: findings)

def redact_text_with_denylist (text : Text) (denylist : List Text) : Option (Text × List Finding) := do
  rebuild text (← collect_spans libraries text denylist) 0

def redact_text (text : Text) : Option (Text × List Finding) := redact_text_with_denylist libraries text []

end MemoryEngine.Redact
