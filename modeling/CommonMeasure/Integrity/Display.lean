import CommonMeasure.Integrity.Attribution

namespace CommonMeasure.Integrity

open Json

inductive Item where
  | quote (passage : String) (sentence : Option Nat)
  | from_source (text : List Char) (passages : List String)
  | own (text : List Char)

structure Reply where
  items : List Item

inductive Outcome where
  | quote_shown | quote_expanded_to_kept | quote_refused
  | shown_confirmed | shown_own | shown_unconfirmed
  | withheld_contradiction | withheld_attribution | withheld_kept | withheld_unconfirmed
  deriving DecidableEq

def Outcome.as_str : Outcome → String
  | .quote_shown => "quote_shown"
  | .quote_expanded_to_kept => "quote_expanded_to_kept"
  | .quote_refused => "quote_refused"
  | .shown_confirmed => "shown_confirmed"
  | .shown_own => "shown_own"
  | .shown_unconfirmed => "shown_unconfirmed"
  | .withheld_contradiction => "withheld_contradiction"
  | .withheld_attribution => "withheld_attribution"
  | .withheld_kept => "withheld_kept"
  | .withheld_unconfirmed => "withheld_unconfirmed"

structure Counts where
  fetch : UInt32 := 0
  of : Outcome → UInt32 := fun _ => 0

def Counts.one_fetch : Counts := { fetch := 1 }

def Counts.add (counts : Counts) (outcome : Outcome) : Counts :=
  { counts with of := fun other => if other = outcome then counts.of outcome + 1 else counts.of other }

def Outcome.all : List Outcome :=
  [.quote_shown, .quote_expanded_to_kept, .quote_refused, .shown_confirmed, .shown_own, .shown_unconfirmed,
    .withheld_contradiction, .withheld_attribution, .withheld_kept, .withheld_unconfirmed]

def Counts.NAMES : List String := "fetch" :: Outcome.all.map Outcome.as_str

def Counts.as_vec (counts : Counts) : List UInt32 := counts.fetch :: Outcome.all.map counts.of

structure Source where
  passage : String
  text : List Char

structure Block (F : Type) where
  outcome : Outcome
  label : String
  text : List Char
  passage : Option String
  span : Option Span
  sources : List Source
  reason : String
  answers : List (Answer F)

structure Rendered (F : Type) where
  display_mode : String
  blocks : List (Block F)
  counts : Counts

/-- A model stage: what it declares, its answers for each case, and its evidence once it has given them. -/
structure ModelChecker (F : Type) where
  name : String
  manifest : Value
  questions : List Question
  check_many : List Case → List (List (Answer F)) × Value
  /-- Before any case. -/
  evidence : Value

structure Model (F : Type) where
  checker : ModelChecker F
  threshold : F
  temperature : F
  contradiction_threshold : F

inductive Admitted (F : Type) where
  | verbatim
  | model (probability : F)

section

variable {F : Type} (platform : Platform F)

def support (answers : List (Answer F)) (model : Option String) (threshold : F) : Option (Admitted F) :=
  if answers.any fun a => a.question = .supported && a.basis = WHOLE_NAME && a.label = .yes then some .verbatim
  else model.bind fun model =>
    (((answers.filter fun a => a.question = .supported && a.basis = model).filterMap Answer.probability).find?
      fun p => platform.reaches p threshold).map .model

def contradiction (answers : List (Answer F)) (model : Option String) : Option F :=
  model.bind fun model =>
    (answers.find? fun a => a.question = .contradicts && a.basis = model).bind Answer.probability

def cut_marker (markers : List KeptSpan) (start stop : Nat) : Option KeptSpan :=
  markers.find? fun m => start < m.stop && m.start < stop && !(start ≤ m.start && m.stop ≤ stop)

def passages (release : Release) : List (String × List Char) :=
  release.signed.passages.filterMap fun p => (slice release.text p.start p.stop).map fun text => (p.id, text)

def longerRun (letters : Letters) (sentence : List Char) (best : Option (String × List Char × Nat))
    (entry : String × List Char) : Option (String × List Char × Nat) :=
  let run := (longestCommonRun letters (words sentence) (words entry.2)).1
  if best.all fun held => held.2.2 < run then some (entry.1, entry.2, run) else best

def longestRun (letters : Letters) (sentence : List Char) (entries : List (String × List Char)) :
    Option (String × List Char × Nat) := entries.foldl (longerRun letters sentence) none

def nearest_passage (letters : Letters) (release : Release) (sentence : List Char) : Option (String × List Char) :=
  match longestRun letters sentence (passages release) with
  | some (id, text, run) => if KeepIntact.MINIMUM_RUN_WORDS ≤ run then some (id, text) else (passages release).head?
  | none => (passages release).head?

structure Cited where
  valid : List String
  invalid : List String
  checked_against : List String
  passage : Option (List Char × List Marker)

def markerLabel (m : KeptSpan) : String := m.label ++ " (" ++ m.passage ++ ")"

def readText (release : Release) (read : List Passage) : List Char × List Marker :=
  read.foldl (fun (text, markers) p =>
    let text := if text = [] then text else text ++ [Char.ofNat 10, Char.ofNat 10]
    let offset := byteLen text
    (text ++ (slice release.text p.start p.stop).getD [],
      markers ++ (release.signed.markers.filter fun m => m.passage = p.id).map fun m =>
        { start := offset + (m.start - p.start), stop := offset + (m.stop - p.start), label := markerLabel m })) ([], [])

def cited_at (release : Release) (valid_at : List Nat) (invalid : List String) : Cited :=
  let signed := release.signed
  let read_at := (List.range signed.passages.length).filter fun n =>
    valid_at.any fun place => n = place - 1 || n = place || n = place + 1
  let ids (places : List Nat) := places.filterMap fun place => signed.passages[place]?.map Passage.id
  { valid := ids valid_at
    invalid := invalid
    checked_against := ids read_at
    passage := if read_at = [] then none else some (readText release (read_at.filterMap (signed.passages[·]?))) }

def cited (release : Release) (ids : List String) : Cited :=
  let places := ids.map fun id => release.signed.passages.findIdx? (·.id = id)
  cited_at release ((List.range release.signed.passages.length).filter fun place => some place ∈ places)
    (ids.filter fun id => (release.signed.passages.findIdx? (·.id = id)).isNone)

def reply_passages (release : Release) (reply : Reply) : Cited :=
  let ids := reply.items.flatMap fun item => match item with
    | .from_source _ passages => passages
    | .quote passage _ => if release.signed.passages.any (·.id = passage) then [passage] else []
    | .own _ => []
  let c := cited release ids
  if c.passage.isNone && release.signed.passages ≠ [] then cited_at release [0] [] else c

def instead (letters : Letters) (release : Release) (sentence : List Char) (valid : List String) :
    Option (String × List Char) :=
  match longestRun letters sentence (valid.filterMap fun id => (release.passage id).map fun (p, text) => (p.id, text)) with
  | some (id, text, _) => some (id, text)
  | none => nearest_passage letters release sentence

def source_block (outcome : Outcome) (label : String) (release : Release) (start stop : Nat) (passage reason : String) :
    Block F :=
  let span := Span.trimmed release.text start stop
  { outcome := outcome
    label := label
    text := (slice release.text span.start span.stop).getD []
    passage := some passage
    span := some span
    sources := []
    reason := reason
    answers := [] }

def refused (passage reason : String) : Block F :=
  { outcome := .quote_refused
    label := "not shown"
    text := []
    passage := some passage
    span := none
    sources := []
    reason := reason
    answers := [] }

def keptLabel (kept : KeptSpan) : String := "from the source, kept " ++ kept.label ++ " shown whole"

def kept_block (release : Release) (kept : KeptSpan) (what : String) : Block F :=
  source_block .quote_expanded_to_kept (keptLabel kept) release kept.start kept.stop kept.passage
    ("the " ++ what ++ " cut a passage the source keeps intact; the whole span is shown instead")

def quotedWords (letters : Letters) (release : Release) (passage : String) : Option Span :=
  let wanted := words passage.toList
  let text_words := words release.text
  (if 3 ≤ wanted.length then findRun letters wanted text_words else none).map fun place =>
    spanOf text_words place (place + wanted.length)

def quotedPassage (p : Passage) (text : List Char) (sentence : Option Nat) : Option Span :=
  match sentence with
  | some n => (Attribution.sentences text)[n]?.map fun (s, e) => ⟨p.start + s, p.start + e⟩
  | none => some ⟨p.start, p.stop⟩

def quote (letters : Letters) (release : Release) (passage : String) (sentence : Option Nat) : Block F :=
  match release.passage passage with
  | none =>
    match quotedWords letters release passage with
    | some span =>
      match cut_marker release.signed.markers span.start span.stop with
      | some kept => kept_block release kept "quoted words"
      | none =>
        let id := (release.signed.passages.find? fun p => p.start ≤ span.start && span.start < p.stop).elim "" Passage.id
        source_block .quote_shown "from the source" release span.start span.stop id
          "the quoted words occur whole in the signed text and are rendered from it"
    | none => refused passage "the signed text has no passage by the id the quote names"
  | some (p, text) =>
    match quotedPassage p text sentence with
    | none => refused passage ("passage " ++ passage ++ " has no sentence " ++ decimalText (sentence.getD 0))
    | some span =>
      match cut_marker release.signed.markers span.start span.stop with
      | some kept => kept_block release kept "requested span"
      | none =>
        source_block .quote_shown "from the source" release span.start span.stop passage
          "rendered from the signed text by passage id"

end

end CommonMeasure.Integrity
