import CommonMeasure.Foundation.Text
import CommonMeasure.Purchase.Plan

namespace CommonMeasure.Mediation

open Admission (Ruling LicenceState Money AcquisitionCharge PolicyMode)
open Purchase (AllowanceContext GateDecision Ledger)

abbrev AgentText := String

def FETCH_DEFAULT_CHARS : Nat := 60000

def FETCH_MAX_CHARS : Nat := 200000

inductive Member where
  | absent
  | number (n : Nat)
  | other

structure FetchWindow where
  offset : Nat
  max_chars : Nat
  max_chars_named : Bool

namespace FetchWindow

def read (name : String) : Member → Except AgentText (Option Nat)
  | .absent => .ok none
  | .number n => .ok (some n)
  | .other => .error (name ++ " must be a non-negative integer; the call gave another value")

def from_arguments (offset max_chars : Member) : Except AgentText FetchWindow := do
  let offset := (← read "offset" offset).getD 0
  let named ← read "max_chars" max_chars
  match named with
  | none => return ⟨offset, FETCH_DEFAULT_CHARS, false⟩
  | some 0 => .error "max_chars must be at least 1: a part of no characters would still be a request to the site"
  | some asked => return ⟨offset, min asked FETCH_MAX_CHARS, true⟩

def names_a_part (window : FetchWindow) : Bool := 0 < window.offset || window.max_chars_named

end FetchWindow

structure Part where
  text : List Char
  offset : Nat
  chars : Nat
  total_chars : Nat

def FetchWindow.slice (window : FetchWindow) (text : List Char) : Part where
  text := (text.drop window.offset).take window.max_chars
  offset := window.offset
  chars := min window.max_chars (text.length - window.offset)
  total_chars := text.length

structure Delivered where
  offset : Nat
  chars : Nat
  total_chars : Nat
  hash : String
  deriving DecidableEq

def as_bytes (text : List Char) : Bytes := utf8 (String.ofList text)

namespace Part

def past_end (part : Part) : Option AgentText :=
  if 0 < part.offset ∧ part.total_chars ≤ part.offset then
    some ("offset " ++ toString part.offset ++ " is past the end of the text, which has " ++ toString part.total_chars ++
      " characters.")
  else none

def truncated (part : Part) : Bool := part.offset + part.chars < part.total_chars

def delivered (sha256_digest : Bytes → String) (part : Part) : Delivered :=
  ⟨part.offset, part.chars, part.total_chars, sha256_digest (as_bytes part.text)⟩

end Part

structure Spoken where
  ruling : Ruling
  agent_reason : AgentText

def Spoken.refused (spoken : Spoken) : Option (String × AgentText) :=
  match spoken.ruling with
  | .refused reason => some (reason, spoken.agent_reason)
  | _ => none

def first_refused (rulings : List Spoken) : Option (String × AgentText) := rulings.findSome? Spoken.refused

def breaches_of (rulings : List Spoken) : Option String :=
  let reasons := rulings.filterMap fun spoken => match spoken.ruling with
    | .allowedWithBreach reason => some reason
    | _ => none
  if reasons.isEmpty then none else some (" ".intercalate reasons)

def merge_breaches (host pii : Option String) : Option String :=
  match host, pii with
  | some host, some pii => some (host ++ " " ++ pii)
  | some host, none => some host
  | none, some pii => some pii
  | none, none => none

structure Refusal where
  reason : String
  agent_reason : AgentText

inductive FileDelivery where
  | embedded_resource
  | local_file
  deriving DecidableEq

structure DeliveredFile where
  via : FileDelivery
  bytes : Nat
  statement : String
  deriving DecidableEq

/-- The gate's record: its decision, what was written against the receipt or without one, and what was paid. -/
structure AllowanceRecord where
  decision : GateDecision
  settlement : List Purchase.Event
  paid : Option String

/-- `D` are the source's declarations, `R` the record of a signed release, `I` the identity presented. -/
structure FetchFacts (D R I : Type) where
  url : String
  content_hash : Option String
  retrieved_hash : Option String
  estimated_tokens : Option Nat
  delivered : Option Delivered
  content_type : Option String
  content_type_rendered : Bool
  delivered_file : Option DeliveredFile
  release : Option R
  grounded : Bool
  licence : LicenceState
  refusal : Option String
  breach : Option String
  http_status : Option Nat
  failure : Option String
  declarations : Option D
  named_by : Option String
  manifest_record : Option Nat
  content_telemetry_id : Option String
  allowance : Option AllowanceRecord
  identity : Option I
  requested_at : Option Int
  challenge : Option String
  told : Option AgentText

namespace FetchFacts

variable {D R I : Type}

def carried (url : String) : FetchFacts D R I :=
  { url, content_hash := none, retrieved_hash := none, estimated_tokens := none, delivered := none, content_type := none,
    content_type_rendered := false, delivered_file := none, release := none, grounded := false, licence := .unknown,
      refusal := none,
    breach := none, http_status := none, failure := none, declarations := none, named_by := none, manifest_record := none,
    content_telemetry_id := none, allowance := none, identity := none, requested_at := none, challenge := none, told := none }

def refused (url reason : String) : FetchFacts D R I := { carried url with refusal := some reason }

end FetchFacts

inductive Event (D R I : Type) where
  /-- The page is asked for, at a URL. -/
  | requested (url : String)
  | supplied (call : Purchase.Call)
  | ledger (event : Purchase.Event)
  /-- `record_allowance_gap`. -/
  | allowance_gap (reservation : Option String) (observed : Option Money)
  /-- `record_crossing_for`. -/
  | recorded (crossing : FetchFacts D R I)
  | saved (bytes : Bytes)

/-- What a result carries of the page: a part of its text, with what is shown of a signed release, or a file. -/
inductive Carried (S : Type) where
  | text (part : Part) (release : Option S)
  | file (bytes : Bytes) (embedded : Bool)

structure Fetched (S : Type) where
  url : String
  content_hash : String
  retrieved_hash : String
  http_status : Nat
  carried : Carried S

structure Passage (D R I S : Type) where
  events : List (Event D R I)
  exit : Except AgentText (Fetched S)

def Passage.after {D R I S : Type} (events : List (Event D R I)) (passage : Passage D R I S) : Passage D R I S :=
  ⟨events ++ passage.events, passage.exit⟩

/-- `record_told`: every error is recorded as it is told. -/
def record_told {D R I S : Type} (facts : FetchFacts D R I) (told : AgentText) : Passage D R I S :=
  ⟨[.recorded { facts with told := some told }], .error told⟩

section

variable (T : Admission.Texts) {D R I : Type}

def gap_of : Purchase.Event → List (Event D R I)
  | .settled reservation observed (some _) => [.allowance_gap reservation observed]
  | .released reservation (some _) => [.allowance_gap (some reservation) none]
  | _ => []

def ledger_events (events : List Purchase.Event) : List (Event D R I) :=
  events.flatMap fun event => .ledger event :: gap_of event

theorem mem_ledger_events {events : List Purchase.Event} {event : Event D R I} (member : event ∈ ledger_events events) :
    (∃ written, event = .ledger written) ∨ ∃ reservation observed, event = .allowance_gap reservation observed := by
  obtain ⟨written, _, here⟩ := List.mem_flatMap.mp member
  rcases List.mem_cons.mp here with is | gap
  · exact Or.inl ⟨written, is⟩
  · unfold gap_of at gap
    split at gap
    · exact Or.inr ⟨_, _, List.mem_singleton.mp gap⟩
    · exact Or.inr ⟨_, _, List.mem_singleton.mp gap⟩
    · cases gap

def settle_mediated (context : AllowanceContext) (ledger : Ledger) (decision : GateDecision) (charge : AcquisitionCharge) :
    List Purchase.Event :=
  (Purchase.settle_success T context ledger decision.reservation charge).events

def release_mediated (ledger : Ledger) (decision : GateDecision) : List Purchase.Event :=
  match decision.reservation with
  | some reservation => (Purchase.release_after_failure ledger reservation).events
  | none => []

end

end CommonMeasure.Mediation
