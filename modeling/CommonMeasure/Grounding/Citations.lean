import CommonMeasure.Declarations.Robots
import CommonMeasure.Grounding.Quotes

namespace CommonMeasure.Grounding

open Declarations (lines)
open Integrity (Letters Span)
open Integrity.Fidelity (names_a_citation stripped)

structure ContextPart where
  source_ref : List Char
  content_hash : List Char
  text : List Char

inductive Verdict where
  | supported | contradicted | uncovered | unavailable
  deriving DecidableEq

structure Matched where
  content_hash : List Char
  span : Span

structure Citation where
  url : Option (List Char)
  quote : Option (List Char)
  /-- The line as it is written, where it could not be read. -/
  line : Option (List Char)
  verdict : Verdict
  matched : Option Matched
  reason : String

def MARKER : List Char := "CITATION:".toList

def URL_PLACEHOLDER : List Char := "CITED_URL".toList

def QUOTE_PLACEHOLDER : List Char := "the exact quote from that source".toList

def citation_body (line : List Char) : Option (List Char) :=
  let rest := stripped^[(trim line).length] (trim line)
  if (rest.take MARKER.length).map Char.toLower = MARKER.map Char.toLower then
    some ((rest.drop MARKER.length).dropWhile fun c => c ∈ ['*', '`', '_'])
  else none

/-- What stands before the first `::`, and what after it. -/
def split_once : List Char → Option (List Char × List Char)
  | [] => none
  | c :: rest =>
    if c = ':' ∧ rest.head? = some ':' then some ([], rest.tail)
    else (split_once rest).map fun (before, after) => (c :: before, after)

def enclosed (first last : Char) (text : List Char) : Option (List Char) :=
  match text with
  | [] => none
  | c :: rest => if c = first ∧ rest.getLast? = some last then some rest.dropLast else none

def inner (url : List Char) : Option (List Char) := (enclosed '`' '`' url).or (enclosed '<' '>' url)

def undecorated : Nat → List Char → List Char
  | 0, url => url
  | turns + 1, url =>
    match inner url with
    | some inner => undecorated turns (trim inner)
    | none => url

def undecorate_url (url_part : List Char) : List Char := undecorated (trim url_part).length (trim url_part)

def rsplit_once (text : List Char) : Option (List Char × List Char) :=
  let tail := text.rtakeWhile fun c => !isWhitespace c
  if tail.length = text.length then none else some ((text.take (text.length - tail.length)).dropLast, tail)

def LABEL : List Char := "SOURCE ".toList

def HASH : List Char := "[sha256:".toList

def trim_end (text : List Char) : List Char := text.rdropWhile isWhitespace

def unlabel_url (url : List Char) : List Char :=
  let url := if LABEL <+: url then trim (url.drop LABEL.length) else url
  match rsplit_once url with
  | some (head, tail) => if HASH <+: tail ∧ tail.getLast? = some ']' then trim_end head else url
  | none => url

def cited_url (url_part : List Char) : List Char := undecorate_url (unlabel_url (undecorate_url url_part))

def unreadable_line (line : List Char) (why : String) : Citation where
  url := none
  quote := none
  line := some (trim line)
  verdict := .unavailable
  matched := none
  reason := "the citation line does not parse (" ++ why ++ "), so nothing is checkable"

def unparseable (body : List Char) (why : String) : Citation := unreadable_line (MARKER ++ body) why

def template_echo (body : List Char) (why : String) : Citation where
  url := none
  quote := none
  line := some (trim (MARKER ++ body))
  verdict := .unavailable
  matched := none
  reason := "the citation line echoes the directive's template (" ++ why ++ "), so nothing was cited"

def quoted (quote_part : List Char) : Option (List Char) :=
  match enclosed '"' '"' (trim quote_part) with
  | some quote => if trim quote = [] then none else some (trim quote)
  | none => none

section

variable (letters : Letters) (parts : List ContextPart)

/-- The verdict on a quote cited from a URL: the first part of that URL that has the quote supports it. -/
def verdict (url quote : List Char) : Citation :=
  let cited := parts.filter fun part => part.source_ref = url
  if cited = [] then
    ⟨some url, some quote, none, .uncovered, none, "the cited URL is not among the sources that entered this plan's " ++
      "window, so the supplied context cannot back this citation"⟩
  else match cited.findSome? fun part => (find_quote letters quote part.text).map (Matched.mk part.content_hash) with
    | some matched => ⟨some url, some quote, none, .supported, some matched,
        "the cited source's retained text contains this word sequence at the recorded span"⟩
    | none => ⟨some url, some quote, none, .contradicted, none,
        "the cited source entered the window, but its retained text does not contain this word sequence"⟩

def judge (body : List Char) : Citation :=
  match split_once body with
  | none => unparseable body "no `::` separates the URL from the quote"
  | some (url_part, quote_part) =>
    let url := cited_url url_part
    if url = [] then unparseable body "the URL before `::` is empty"
    else match quoted quote_part with
      | none => unparseable body "the quote is not enclosed in double quotes"
      | some quote =>
        if url = URL_PLACEHOLDER then
          template_echo body ("the URL is the directive's own placeholder CITED_URL, repeated " ++
            "from the template instead of replaced with a source's URL")
        else if quote = QUOTE_PLACEHOLDER then
          template_echo body ("the quote is the directive's own placeholder \"the exact quote from that source\", " ++
            "repeated from the template instead of quoted from the source")
        else verdict letters parts url quote

def citation_of (line : List Char) : Option Citation :=
  match citation_body line with
  | some rest => some (judge letters parts rest)
  | none =>
    if names_a_citation line then
      some (unreadable_line line "no readable `CITATION: CITED_URL :: \"QUOTE\"` marker begins it")
    else none

end

structure EvaluationInput where
  answer : Option (List Char)
  cited_answer_required : Bool
  parts : List ContextPart

structure Record where
  verdict_counts : Verdict → Nat
  citations : List Citation
  unevaluated : Option String

def unevaluated (input : EvaluationInput) : Option String :=
  match input.answer with
  | none => some "no answer exists for this plan; inference did not complete"
  | some answer =>
    if trim answer = [] then
      some "the answer is empty, so nothing was checkable; inference completed but returned no text"
    else if !input.cited_answer_required then
      some "the suite did not require a cited answer, and citation checks need one (set require_cited_answer)"
    else none

def grounding (letters : Letters) (input : EvaluationInput) : Record :=
  let citations := match unevaluated input, input.answer with
    | none, some answer => (lines answer).filterMap (citation_of letters input.parts)
    | _, _ => []
  ⟨fun verdict => (citations.filter fun citation => citation.verdict = verdict).length, citations, unevaluated input⟩

end CommonMeasure.Grounding
