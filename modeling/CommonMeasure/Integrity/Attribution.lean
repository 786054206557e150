import CommonMeasure.Integrity.Claims

namespace CommonMeasure.Integrity.Attribution

open Json

def NAME : String := "attribution-lookup/1"

def MINIMUM_QUOTE_WORDS : Nat := 3

def SPEECH_VERBS : List String :=
  ["said", "says", "say", "told", "tells", "wrote", "writes", "added", "adds", "stated", "states", "argued", "argues",
    "warned", "warns", "claimed", "claims", "announced", "announces", "insisted", "insists", "explained", "explains",
    "noted", "notes", "described", "describes", "called", "calls", "declared", "declares", "replied", "responded",
    "continued", "asked", "asks", "urged", "urges", "admitted", "admits", "confirmed", "confirms", "denied", "denies",
    "promised", "promises", "conceded", "suggested", "suggests", "maintained", "maintains", "recalled", "recalls",
    "reported", "reports", "put", "puts"]

def TITLES : List String :=
  ["mr", "mrs", "ms", "dr", "sir", "dame", "lord", "lady", "professor", "prof", "president", "prime", "minister", "mayor",
    "councillor", "senator", "judge", "chief", "captain", "general", "the", "a", "an"]

def INVERTIBLE_VERBS : List String :=
  ["said", "says", "added", "adds", "wrote", "writes", "stated", "states", "argued", "argues", "warned", "warns",
    "claimed", "claims", "announced", "insisted", "explained", "noted", "declared", "replied", "responded", "continued",
    "asked", "urged", "admitted", "confirmed", "denied", "promised", "conceded", "suggested", "maintained", "recalled",
    "reported", "commented", "remarked", "observed"]

def PRONOUNS : List String := ["he", "she", "they", "it", "who", "i", "we"]

def JOINERS : List String := ["and", "but", "then", "later", "also", "who", "which"]

def SUFFIXES : List String := ["mp", "qc", "kc", "jr", "sr", "obe", "mbe", "cbe", "phd", "md"]

inductive Speaker where
  | named (name : List Char)
  | pronoun
  deriving DecidableEq

structure Quotation where
  text : List Char
  start : Nat
  stop : Nat
  speaker : Option Speaker

section

variable (letters : Letters)

def isOne (listed : List String) (word : Word) : Bool := String.ofList (key letters word.text) ∈ listed

def is_name_word (word : Word) : Bool :=
  key letters word.text ≠ [] && (letters.bare word.text).head?.any letters.isUppercase &&
    !isOne letters TITLES word && !isOne letters PRONOUNS word

def endsWith (ends : List Char) (word : Word) : Bool := word.text.getLast?.any (· ∈ ends)

def join (ws : List Word) : List Char := List.intercalate [' '] (ws.map fun w => letters.bare w.text)

def named (ws : List Word) : Option Speaker := if ws = [] then none else some (.named (join letters ws))

/-- Where the run of name words that ends before `stop` starts, not crossing a comma or a clause boundary. -/
def nameStart (ws : List Word) (stop : Nat) : Nat → Nat
  | 0 => 0
  | start + 1 =>
    if ws[start]?.any (is_name_word letters) then
      if ws[start]?.any (endsWith [',', ':', ';']) && start < stop - 1 then start + 1 else nameStart ws stop start
    else start + 1

def name_ending_at (ws : List Word) (stop : Nat) : Option Speaker :=
  named letters ((ws.take stop).drop (nameStart letters ws stop stop))

def nameRun : List Word → List Word
  | [] => []
  | w :: rest =>
    if is_name_word letters w then if endsWith [',', ':', ';', '.'] w then [w] else w :: nameRun rest else []

def name_starting_at (ws : List Word) (start : Nat) : Option Speaker :=
  named letters (nameRun letters ((ws.drop start).dropWhile (isOne letters TITLES)))

def pronounAt (ws : List Word) (place : Nat) : Option Speaker :=
  if ws[place]?.any (isOne letters PRONOUNS) then some .pronoun else none

/-- `according to X`, with `to` between those places. -/
def according (ws : List Word) (first limit : Nat) : Option Speaker :=
  ((List.range ws.length).find? fun i => first ≤ i && i ≤ limit && ws[i]?.any (isOne letters ["to"]) &&
      0 < i && ws[i - 1]?.any (isOne letters ["according"])).bind fun to_at =>
    (name_starting_at letters ws (to_at + 1)).or (pronounAt letters ws (to_at + 1))

def subject (ws : List Word) (verb_at : Nat) : Option Speaker :=
  (name_ending_at letters ws verb_at).or <|
    if verb_at = 0 then none
    else (pronounAt letters ws (verb_at - 1)).or <|
      if ws[verb_at - 1]?.any (isOne letters JOINERS) then (name_starting_at letters ws 0).or (pronounAt letters ws 0)
      else none

def tag (ws : List Word) (verb_at : Nat) : Option Speaker :=
  (name_ending_at letters ws verb_at).or <|
    if (ws.take verb_at).any (isOne letters PRONOUNS) then some .pronoun
    else if ws[verb_at]?.any (isOne letters INVERTIBLE_VERBS) then
      (name_starting_at letters ws (verb_at + 1)).or (pronounAt letters ws (verb_at + 1))
    else none

def speaker_near (before after : List Char) : Option Speaker :=
  let b := words before
  let a := words after
  (according letters b (b.length - 6) b.length).or <|
    (according letters a 0 4).or <|
      (((List.range b.length).reverse.filter fun i => b[i]?.any (isOne letters SPEECH_VERBS)).findSome?
        (subject letters b)).or <|
          ((a.take 5).findIdx? (isOne letters SPEECH_VERBS)).bind (tag letters a)

def surname (name : List Char) : List Char :=
  (((words name).map fun w => key letters w.text).reverse.find? fun word => String.ofList word ∉ SUFFIXES).getD []

def opens (c : Char) : Bool := c = '"' || c.toNat = 0x201C

def closes (c : Char) : Bool := c = '"' || c.toNat = 0x201D

def quotation (sentence : List Char) (start stop next : Nat) : List Quotation :=
  let raw := (slice sentence start stop).getD []
  let text := trim raw
  if (words text).length < MINIMUM_QUOTE_WORDS then []
  else
    let lead := byteLen raw - byteLen (trimStart raw)
    [{ text := text
       start := start + lead
       stop := start + lead + byteLen text
       speaker := speaker_near letters ((slice sentence 0 start).getD [])
         ((slice sentence next (byteLen sentence)).getD []) }]

def quotationsFrom (sentence : List Char) : Option Nat → Nat → List Char → List Quotation
  | _, _, [] => []
  | opened, index, c :: rest =>
    let next := index + c.utf8Size
    if opens c && opened.isNone then quotationsFrom sentence (some next) next rest
    else if closes c then
      (opened.elim [] fun start => quotation letters sentence start index next) ++ quotationsFrom sentence none next rest
    else quotationsFrom sentence opened next rest

def quotations (sentence : List Char) : List Quotation := quotationsFrom letters sentence none 0 sentence

end

def isCloser (c : Char) : Bool := c = '"' || c.toNat = 0x201D || c = '\'' || c = ')' || c = ']'

/-- `char::is_whitespace` of a byte: a character of more than one begins with none that is. -/
def isWhiteByte (c : Char) : Bool := c = ' ' || 9 ≤ c.toNat && c.toNat ≤ 13

def sentences (text : List Char) : List (Nat × Nat) :=
  sentencesFrom (fun rest => (rest.takeWhile isCloser).length) isWhiteByte 0 0 0 text

section

variable {F : Type} (platform : Platform F)

def quote_ref (quote : Quotation) : Value :=
  .object [("start", num quote.start), ("end", num quote.stop), ("sha256", .string (platform.sha256 quote.text))]

inductive Examined where
  | missing | unnamed | unresolved
  | attributed (named : Bool)
  deriving DecidableEq

def named_value (attributed : Option Speaker) : Value :=
  match attributed with
  | some (.named name) => .object [("named_sha256", .string (platform.sha256 name))]
  | some .pronoun => .string "pronoun"
  | none => .null

/-- The sentences of the text that carry the quotation, the tag after it among them, and the one before. -/
def carrying (case_ : Case) (quote_start quote_end : Nat) : Nat × Nat × Nat :=
  let bounds := sentences case_.passage
  let sentence_index := (bounds.findIdx? fun (s, e) => s ≤ quote_start && quote_start < e).getD 0
  let end_index := max ((bounds.findIdx? fun (s, e) => s < quote_end && quote_end ≤ e).getD sentence_index) sentence_index
  let lo := (bounds[sentence_index]?.map Prod.fst).getD 0
  let hi := (bounds[end_index]?.map Prod.snd).getD 0
  let hi := if platform.bare ((slice case_.passage quote_end hi).getD []) = [] then
      (bounds[end_index + 1]?.map Prod.snd).getD hi
    else hi
  (lo, hi, (bounds[sentence_index - 1]?.map Prod.fst).getD 0)

def examine (case_ : Case) (quote : Quotation) : Value × Examined :=
  let qw := words quote.text
  let passage_words := words case_.passage
  match findRun platform.toLetters qw passage_words with
  | none => (.object [("quote", quote_ref platform quote), ("in_passage", .bool false)], .missing)
  | some place =>
    let span := spanOf passage_words place (place + qw.length)
    match quote.speaker with
    | some (.named speaker) =>
      let (lo, hi, previous) := carrying platform case_ span.start span.stop
      let wanted := surname platform.toLetters speaker
      let attributed := speaker_near platform.toLetters ((slice case_.passage lo span.start).getD [])
        ((slice case_.passage span.stop hi).getD [])
      let (named, how) := match attributed with
        | some (.named name) => (some (decide (surname platform.toLetters name = wanted)), "passage attribution")
        | some .pronoun => (none, "pronoun in the passage")
        | none =>
          (some ((words ((slice case_.passage previous hi).getD [])).any fun w => key platform.toLetters w.text = wanted),
            "name near the quotation")
      (.object [("quote", quote_ref platform quote), ("in_passage", .bool true), ("passage_span", span.value),
          ("speaker_sha256", .string (platform.sha256 speaker)),
          ("passage_attributes_to", named_value platform attributed), ("sentence", Span.value ⟨lo, hi⟩),
          ("matched_by", .string how), ("speaker_named", named.elim .null .bool)],
        named.elim .unresolved .attributed)
    | other =>
      (.object [("quote", quote_ref platform quote), ("in_passage", .bool true), ("passage_span", span.value),
          ("speaker", .null),
          ("reason", .string (if other = some .pronoun then "the sentence attributes the quotation by pronoun"
            else "the sentence quotes without naming a speaker"))], .unnamed)

def verdict (held : Option (Label × String)) : Examined → Option (Label × String)
  | .missing => held.or (some (.no, "the quotation does not occur in the passage"))
  | .unnamed | .unresolved => held
  | .attributed named =>
    if held.any fun (label, _) => label = .no then held
    else if named then some (.yes, "the passage names the sentence's speaker beside the quotation")
    else some (.no, "the passage does not name the sentence's speaker beside the quotation")

def check (case_ : Case) : Answer F :=
  let quotes := quotations platform.toLetters case_.summary
  let examined := quotes.map (examine platform case_)
  let reached := (examined.map Prod.snd).foldl verdict none
  let (label, probability, reason) := match reached with
    | some (label, reason) => (label, some (if label = .yes then platform.one else platform.zero), reason)
    | none =>
      (Label.not_applicable, none,
        if quotes = [] then "the sentence quotes nobody"
        else if .unresolved ∈ examined.map Prod.snd then
          "the passage attributes the quotation by a pronoun the lookup cannot resolve"
        else "the sentence quotes without naming a speaker")
  { question := .right_person_quoted
    label := label
    probability := probability
    basis := NAME
    reason := reason
    detail := .object [("quotations", .array (examined.map Prod.fst))] }

@[simp] theorem check_question (case_ : Case) : (check platform case_).question = .right_person_quoted := rfl

end

end CommonMeasure.Integrity.Attribution
