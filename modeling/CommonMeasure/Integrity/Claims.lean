import CommonMeasure.Integrity.Answers

namespace CommonMeasure.Integrity

open Json

def isTerminator (c : Char) : Bool := c = '.' || c = '!' || c = '?'

/-- Sentences end where a terminator, and what closes with it, is followed by white space or the end. -/
def sentencesFrom (closing : List Char → Nat) (white : Char → Bool) : Nat → Nat → Nat → List Char → List (Nat × Nat)
  | start, index, _, [] => if start < index then [(start, index)] else []
  | start, index, skip + 1, c :: rest => sentencesFrom closing white start (index + c.utf8Size) skip rest
  | start, index, 0, c :: rest =>
    if isTerminator c && (rest.drop (closing rest)).head?.all white then
      let stop := index + c.utf8Size + byteLen (rest.take (closing rest))
      (start, stop) :: sentencesFrom closing white stop (index + c.utf8Size) (closing rest) rest
    else sentencesFrom closing white start (index + c.utf8Size) 0 rest

namespace Fidelity

def MINIMUM_CLAIM_WORDS : Nat := 3

def MINIMUM_WINDOW_RUN_WORDS : Nat := 6

def RULES : String :=
  "fidelity-verifier/1: claims are the sentences of the answer's lines that do not name a CITATION, each line first " ++
   "stripped of list, numbering, blockquote and emphasis decoration and then split where `.`, `!` or `?` is followed by " ++
   "whitespace or the end of the line, closing quotes and brackets kept with the sentence; a segment of fewer than 3 " ++
   "whitespace-delimited words is not a claim. Verdicts, in priority order, with words compared as the grounding " ++
   "evaluator compares them (case-insensitive, trailing punctuation ignored, whitespace flexible): contradicted = the " ++
   "claim contains the quote of a citation the grounding evaluator judged contradicted; supported = the claim contains " ++
   "the quote of a citation judged supported, recorded against that citation's span, or else a run of at least 6 " ++
   "consecutive words of the claim occurs in one window part's retained text, the longest such run recorded with the " ++
   "part's content hash and byte span; unsupported = neither. Claim byte offsets are into the answer as recorded. The " ++
   "supported fraction is supported claims over all claims and is null where there are no claims."

def closingQuotes : List Char → List Char → Nat
  | [], _ => 0
  | quote :: quotes, text =>
    if text.head? = some quote then closingQuotes quotes text.tail + 1 else closingQuotes quotes text

def closing (text : List Char) : Nat :=
  let plain := (text.takeWhile fun c => c ∈ ['"', '\'', ')', ']', '}']).length
  plain + closingQuotes [Char.ofNat 0x201D, Char.ofNat 0x2019, Char.ofNat 0xBB] (text.drop plain)

/-- `u8::is_ascii_whitespace`. -/
def isAsciiWhitespace (c : Char) : Bool := c = ' ' || c.toNat = 9 || c.toNat = 10 || c.toNat = 12 || c.toNat = 13

def sentences (text : List Char) : List (Nat × Nat) :=
  (sentencesFrom closing isAsciiWhitespace 0 0 0 text).filterMap fun (start, stop) =>
    let span := Span.trimmed text start stop
    if span.start < span.stop then some (span.start, span.stop) else none

def names_a_citation (line : List Char) : Bool :=
  (line.map Char.toLower).tails.any ("citation:".toList.isPrefixOf ·)

def isDecoration (c : Char) : Bool := c ∈ ['-', '*', '+', '>', '#', '`', '_', ' ', Char.ofNat 9]

def stripped (line : List Char) : List Char :=
  ((line.dropWhile isDecoration).dropWhile Char.isDigit).dropWhile fun c => c ∈ ['.', ')', ' ', Char.ofNat 9]

def decoration_length (line : List Char) : Nat := byteLen line - byteLen (stripped^[line.length] line)

/-- `split_inclusive`, at line feeds. -/
def linesInclusive : List Char → List Char → List (List Char)
  | held, [] => if held = [] then [] else [held]
  | held, c :: rest => if c.toNat = 10 then (held ++ [c]) :: linesInclusive [] rest else linesInclusive (held ++ [c]) rest

def claimsFrom : Nat → List (List Char) → List (Nat × Nat)
  | _, [] => []
  | start, inclusive :: rest =>
    let line := inclusive.rdropWhile fun c => c.toNat = 10 || c.toNat = 13
    let later := claimsFrom (start + byteLen inclusive) rest
    if names_a_citation line then later
    else
      let content := stripped^[line.length] line
      let content_start := start + decoration_length line
      ((sentences content).filterMap fun (first, stop) =>
        if (words ((slice content first stop).getD [])).length < MINIMUM_CLAIM_WORDS then none
        else some (content_start + first, content_start + stop)) ++ later

def segment (answer : List Char) : List (Nat × Nat) := claimsFrom 0 (linesInclusive [] answer)

def TRAILING_PUNCTUATION : List Char :=
  ['.', ',', ';', ':', '!', '?', '"', '\'', ')', ']', '}', Char.ofNat 0x2026, Char.ofNat 0x201D, Char.ofNat 0x2019,
    Char.ofNat 0xBB]

def trimmed_word (word : List Char) : List Char :=
  let trimmed := word.rdropWhile (· ∈ TRAILING_PUNCTUATION)
  if trimmed = [] then word else trimmed

def same_word (letters : Letters) (left right : List Char) : Bool :=
  let left := trimmed_word left
  let right := trimmed_word right
  left = right || letters.toLowercase left = letters.toLowercase right

def sharedLength (letters : Letters) : List Word → List Word → Nat
  | a :: as, b :: bs => if same_word letters a.text b.text then sharedLength letters as bs + 1 else 0
  | _, _ => 0

def longest_shared_run (letters : Letters) (claim part : List Word) : Option (Nat × Nat × Nat) :=
  (List.range claim.length).foldl (fun best claim_at =>
    (List.range part.length).foldl (fun best part_at =>
      let length := sharedLength letters (claim.drop claim_at) (part.drop part_at)
      if length = 0 then best
      else if best.all fun (_, _, held) => held < length then some (claim_at, part_at, length)
      else best) best) none

inductive Verdict where
  | supported | contradicted | unsupported
  deriving DecidableEq

def Verdict.as_str : Verdict → String
  | .supported => "supported"
  | .contradicted => "contradicted"
  | .unsupported => "unsupported"

def judge_claim {F : Type} (platform : Platform F) (case_ : Case) (text : List Char) (offset : Nat) : Verdict × Value × Value :=
  let claim := words text
  let part := words case_.passage
  match longest_shared_run platform.toLetters claim part with
  | some (claim_at, part_at, length) =>
    if MINIMUM_WINDOW_RUN_WORDS ≤ length then
      let found := spanOf part part_at (part_at + length)
      let span := spanOf claim claim_at (claim_at + length)
      (.supported, .string "window", .object [("reference", .string case_.id),
        ("content_hash", .string (platform.sha256 case_.passage)), ("start", num found.start), ("end", num found.stop),
        ("claim_start", num (offset + span.start)), ("claim_end", num (offset + span.stop)), ("words", num length)])
    else (.unsupported, .null, .null)
  | none => (.unsupported, .null, .null)

def claimText (answer : List Char) (span : Nat × Nat) : List Char := (slice answer span.1 span.2).getD []

def invoke {F : Type} (platform : Platform F) (case_ : Case) : List ((Nat × Nat) × Verdict × Value × Value) :=
  (segment case_.summary).map fun span => (span, judge_claim platform case_ (claimText case_.summary span) span.1)

end Fidelity

open Fidelity in
def claim_ref (answer : List Char) (claim : ((Nat × Nat) × Verdict × Value × Value) × Nat) : Value :=
  .object [("index", num claim.2), ("start", num claim.1.1.1), ("end", num claim.1.1.2),
    ("words", num (words (claimText answer claim.1.1)).length), ("verdict", .string claim.1.2.1.as_str),
    ("basis", claim.1.2.2.1), ("evidence", claim.1.2.2.2)]

def six_word_name : String := "fidelity-verifier/1"

def six_word_run {F : Type} (platform : Platform F) (case_ : Case) : Answer F :=
  let claims := Fidelity.invoke platform case_
  let supported := claims.all fun claim => claim.2.1 = .supported
  { question := .supported
    label := if claims = [] then .not_applicable else if supported then .yes else .no
    probability := if claims = [] then none else some (if supported then platform.one else platform.zero)
    basis := six_word_name
    reason :=
      if claims = [] then "the sentence is too short to be a claim"
      else if supported then
        "a run of at least six consecutive words of the sentence occurs in the release text"
      else "no run of six consecutive words of the sentence occurs in the release text; a paraphrase is invisible to " ++
            "this stage"
    detail := .object [("configuration_digest", .string (platform.sha256 Fidelity.RULES.toList)),
      ("claims", .array (claims.zipIdx.map (claim_ref case_.summary)))] }

@[simp] theorem six_word_run_question {F : Type} (platform : Platform F) (case_ : Case) :
    (six_word_run platform case_).question = .supported := rfl

@[simp] theorem six_word_run_basis {F : Type} (platform : Platform F) (case_ : Case) :
    (six_word_run platform case_).basis = six_word_name := rfl

end CommonMeasure.Integrity
