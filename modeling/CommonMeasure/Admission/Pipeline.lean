import CommonMeasure.Admission.Policy
import CommonMeasure.Optimise.Transform

namespace CommonMeasure.Admission

open Optimise (Casing KeptSource DroppedSource State Source approximate_tokens)

/-- `pii::scan` and `injection::scan`, with how their findings are named. -/
structure Screens where
  pii : String → List Char → Option String
  injection : List Char → Option (Nat × String)

structure Plan where
  policy : Option SourcePolicy
  suite : ContextJob
  provider : String
  quote : Option (AcquisitionCharge × Bool)
  envelopes : List ContextEnvelope
  charge : AcquisitionCharge

variable (T : Texts) (S : Screens) (casing : Casing) (digest : List Char → String)

namespace Plan

variable (plan : Plan)

def cost : Ruling :=
  match plan.quote with
  | some (charge, trial_covered) =>
    check_policy plan.policy plan.suite fun job => purchase_decision T job charge trial_covered
  | none => check_policy plan.policy plan.suite fun job => acquisition_cost T job plan.charge

def admission (envelope : ContextEnvelope) : Ruling :=
  check_policy plan.policy plan.suite fun job => source_admission_from T job envelope (some plan.provider)

def screenable (envelope : ContextEnvelope) : Option (List Char) :=
  if !(plan.admission T envelope).is_refusal && !(plan.cost T).is_refusal then envelope.text else none

end Plan

def pii_ruling (source_url : String) (text : List Char) : Ruling :=
  match S.pii source_url text with
  | some reason => .allowedWithBreach reason
  | none => .allowed

def injection_ruling (mode : PolicyMode) (basis : String) (text : List Char) : Ruling :=
  match S.injection text with
  | some (count, summary) =>
    .breach mode ("The injection screen matched " ++ toString count ++ " known prompt-injection phrasing" ++
      (if count = 1 then "" else "s") ++ " (" ++ summary ++ ") in " ++ basis ++ ".")
  | none => .allowed

namespace Plan

variable (plan : Plan)

def pii (envelope : ContextEnvelope) : Option Ruling :=
  (plan.screenable T envelope).map (pii_ruling S envelope.source_url)

def injection (envelope : ContextEnvelope) : Option Ruling :=
  (plan.screenable T envelope).map
    (injection_ruling S (enforcement_mode plan.policy plan.suite) envelope.source_url)

def usable (envelope : ContextEnvelope) : Bool :=
  !(plan.admission T envelope).is_refusal && !(plan.cost T).is_refusal &&
    (plan.injection T S envelope).all fun ruling => !ruling.is_refusal

def offered (envelope : ContextEnvelope) : Option (List Char) := if plan.usable T S envelope then envelope.text else none

def sourceOf (envelope : ContextEnvelope) (text : List Char) : Source := ⟨⟨envelope.source_url⟩, text⟩

def optimisable (envelopes : List (ContextEnvelope × Nat)) : List (Nat × Source) :=
  envelopes.filterMap fun entry => (plan.offered T S entry.1).map fun text => (entry.2, sourceOf entry.1 text)

end Plan

def outcomeOf (state : State) (source : Source) : DroppedSource ⊕ KeptSource :=
  match state.seen_sources.find? fun seen => seen.1 = Optimise.canonical casing source.text with
  | some seen => .inl ⟨source.envelope, seen.2, approximate_tokens source.text⟩
  | none => .inr (Optimise.keptSource digest source
      (state.readSource casing digest Optimise.KeptContext.longest_match source).removed_spans)

def nextOf (state : State) (source : Source) : State :=
  state.take casing digest Optimise.KeptContext.longest_match source

def place : State → List (Nat × Source) → List (Nat × KeptSource) × List (Nat × DroppedSource)
  | _, [] => ([], [])
  | state, (index, source) :: rest =>
    let others := place (nextOf casing digest state source) rest
    match outcomeOf casing digest state source with
    | .inl dropped => (others.1, (index, dropped) :: others.2)
    | .inr kept => ((index, kept) :: others.1, others.2)

structure BudgetOutcome where
  tokens : Nat
  admitted : Bool
  gap : Option String

def fits (budget : Option Nat) (tokens : Nat) : Bool := budget.all fun budget => tokens ≤ budget

def fitOne (budget_tokens : Option Nat) (admitted_tokens : Nat) (reference : String) (tokens : Nat) : BudgetOutcome :=
  if fits budget_tokens (admitted_tokens + tokens) then ⟨tokens, true, none⟩
  else ⟨tokens, false, some (reference ++ " needs " ++ toString tokens ++ " whitespace-words and only " ++
    toString (budget_tokens.getD 0 - admitted_tokens) ++ " of the job's " ++ toString (budget_tokens.getD 0) ++
    " remained, so it was left out whole rather than truncated.")⟩

def fitFrom (budget_tokens : Option Nat) : Nat → List (String × Nat) → List BudgetOutcome
  | _, [] => []
  | admitted_tokens, (reference, tokens) :: rest =>
    let outcome := fitOne budget_tokens admitted_tokens reference tokens
    outcome :: fitFrom budget_tokens (if outcome.admitted then admitted_tokens + tokens else admitted_tokens) rest

def fit_context_budget (sources : List (String × Nat)) (budget_tokens : Option Nat) : List BudgetOutcome :=
  fitFrom budget_tokens 0 sources

structure ContextPart where
  source_ref : String
  content_hash : String
  text : List Char
  deriving DecidableEq

structure SourceRecord where
  url : String
  host : String
  title : Option String
  content_hash : Option String
  licence : LicenceState
  retrieval_rank : Option Nat
  tokens : Nat
  admitted : Bool
  admission_reason : String

structure Window where
  sources : List SourceRecord
  parts : List ContextPart
  context_tokens_admitted : Nat

def admission_reason (admission : Ruling) (pii injection : Option Ruling) (otherwise : String) : String :=
  ((admission.reason.or (pii.bind Ruling.reason)).or (injection.bind Ruling.reason)).getD otherwise

def deduplicated_reason (carrier : String) : String :=
  "Not admitted; context-optimiser removed its text as a duplicate of " ++ carrier ++
    ", which is kept earlier in this plan (see the plan's processor invocations)."

def recordOf (envelope : ContextEnvelope) (tokens : Nat) (admitted : Bool) (admission_reason : String) : SourceRecord :=
  { url := envelope.source_url, host := envelope.host, title := envelope.title, content_hash := envelope.content_hash,
    licence := envelope.licence, retrieval_rank := envelope.retrieval_rank, tokens, admitted, admission_reason }

def original_tokens (envelope : ContextEnvelope) : Nat := (envelope.text.map approximate_tokens).getD 0

def emptied (source : KeptSource) : Bool := (trim source.text).isEmpty

def partOf (envelope : ContextEnvelope) (source : KeptSource) : ContextPart :=
  { source_ref := envelope.source_url, content_hash := source.output_hash, text := source.text }

/-- What the loop reads on with: the sources kept, what the budget makes of each, and the sources dropped. -/
structure Cursor where
  kept : List (Nat × KeptSource)
  fitted : List BudgetOutcome
  dropped : List (Nat × DroppedSource)

def Cursor.next_if (cursor : Cursor) (index : Nat) : Option DroppedSource × Cursor :=
  match cursor.dropped with
  | (place, dropped) :: rest => if place = index then (some dropped, { cursor with dropped := rest }) else (none, cursor)
  | [] => (none, cursor)

def Window.push (window : Window) (source : SourceRecord) (part : Option ContextPart) (tokens : Nat) : Window :=
  { sources := source :: window.sources
    parts := part.toList ++ window.parts
    context_tokens_admitted := if part.isSome then tokens + window.context_tokens_admitted
      else window.context_tokens_admitted }

namespace Plan

variable (plan : Plan)

def unusableRecord (envelope : ContextEnvelope) : SourceRecord :=
  recordOf envelope (original_tokens envelope) false
    (admission_reason (plan.admission T envelope) (plan.pii T S envelope) (plan.injection T S envelope)
      "Not admitted; the acquisition was refused before any source could cross.")

def keptRecord (envelope : ContextEnvelope) (source : KeptSource) (outcome : BudgetOutcome) : SourceRecord :=
  let reason := admission_reason (plan.admission T envelope) (plan.pii T S envelope) (plan.injection T S envelope)
  if emptied source then
    match source.removed_spans with
    | span :: _ => recordOf envelope (original_tokens envelope) false (deduplicated_reason span.first_kept.reference)
    | [] =>
      recordOf envelope (original_tokens envelope) false (reason
        ("Not admitted; the source's text is entirely whitespace, so there would be nothing behind a citation of " ++
          "it."))
  else
    match outcome.gap with
    | some detail => recordOf envelope outcome.tokens false (reason ("Not admitted; " ++ detail))
    | none => recordOf envelope outcome.tokens outcome.admitted (reason "Admitted; no constraint excluded it.")

def walk : List (ContextEnvelope × Nat) → Cursor → Option Window
  | [], _ => some ⟨[], [], 0⟩
  | (envelope, index) :: rest, cursor =>
    let next := cursor.next_if index
    if !plan.usable T S envelope then (walk rest next.2).map fun window =>
      window.push (plan.unusableRecord T S envelope) none 0
    else
      match next.1 with
      | some duplicate => (walk rest next.2).map fun window =>
        window.push (recordOf envelope (original_tokens envelope) false (deduplicated_reason duplicate.duplicate_of)) none 0
      | none =>
        match next.2.kept, next.2.fitted with
        | (_, source) :: kept, outcome :: fitted =>
          let part := if outcome.admitted && !emptied source then some (partOf envelope source) else none
          (walk rest { next.2 with kept, fitted }).map fun window =>
            window.push (plan.keptRecord T S envelope source outcome) part outcome.tokens
        | _, _ => none

def budget : Option Nat := context_budget plan.policy plan.suite

def cursorOf (placed : List (Nat × KeptSource) × List (Nat × DroppedSource)) (admitted_tokens : Nat) : Cursor :=
  { kept := placed.1
    fitted := fitFrom plan.budget admitted_tokens
      (placed.1.map fun source => (source.2.envelope.source_url, source.2.tokens_out))
    dropped := placed.2 }

def window : Option Window :=
  let placed := place casing digest {} (plan.optimisable T S plan.envelopes.zipIdx)
  plan.walk T S plan.envelopes.zipIdx (plan.cursorOf placed 0)

end Plan

end CommonMeasure.Admission
