import CommonMeasure.Purchase.Gate

namespace CommonMeasure.Purchase

open Admission

inductive ProviderCapability where
  | search | fetch | query | invoke | quote | licensed | report | corroborate
  deriving DecidableEq

/-- The capability `supply_plans` plans a provider for. -/
def planned_capability (fetch_target : Option String) (capabilities : List ProviderCapability) : Option ProviderCapability :=
  if fetch_target.isSome then if .fetch ∈ capabilities then some .fetch else none
  else [.search, .query, .invoke].find? (· ∈ capabilities)

structure Setting where
  policy : Option SourcePolicy
  suite : ContextJob
  provider : String
  capabilities : List ProviderCapability
  capability : ProviderCapability
  fetch_target : Option String
  limit : Nat
  allow_external_acquisition : Bool
  replay : Bool
  allowance : Option AllowanceContext
  planned : planned_capability fetch_target capabilities = some capability

inductive Call where
  | search | fetch | query | invoke | confirm
  deriving DecidableEq

def Call.spends : Call → Bool
  | .search | .fetch | .confirm => true
  | .query | .invoke => false

structure SupplyQuote where
  workflow : String
  billing_status : Option String
  charge : AcquisitionCharge

structure Acquisition where
  charge : AcquisitionCharge
  envelopes : Nat

structure Supplier where
  published_price : ProviderCapability → Option Money
  maximum_search_results : Option Nat
  quote : Except String SupplyQuote
  answer : Call → Except String Acquisition
  free : ∀ call acquisition, call.spends = false → answer call = .ok acquisition → acquisition.charge = ⟨none, none⟩

inductive Leg where
  | inspect | preview | response
  deriving DecidableEq

structure World where
  supplier : Except String Supplier
  write : Leg → Except String Unit
  ledger : Ledger
  /-- The gaps of the stages after the response. -/
  later : List String

inductive Stage where
  | eligibility | target | purchase | allowance
  deriving DecidableEq

inductive Event where
  | ruled (stage : Stage) (ruling : Ruling)
  | sealed (leg : Leg)
  /-- The gate could not read the ledger, or not reserve in it. -/
  | unreadable (fault : String)
  | reserved (reservation : String)
  | dispatched (call : Call)
  | receipt (charge : AcquisitionCharge)
  /-- A settlement against the receipt, and why the ledger did not take it. -/
  | settled (reservation : Option String) (observed : Option Money) (fault : Option String)
  | released (reservation : String) (fault : Option String)
  deriving DecidableEq

inductive Exit where
  /-- The plan is recorded, with the gaps it states. A ruling's own gap is not among them. -/
  | planned (gaps : List String)
  | failed (error : String)

structure Passage where
  events : List Event
  exit : Exit

def Passage.after (events : List Event) (passage : Passage) : Passage := ⟨events ++ passage.events, passage.exit⟩

def ruled (stage : Stage) (ruling : Ruling) (next : Passage) : Passage :=
  (if ruling.is_refusal then ⟨[], .planned []⟩ else next).after [.ruled stage ruling]

def GateDecision.events (decision : GateDecision) : List Event :=
  decision.fault.toList.map .unreadable ++ decision.reservation.toList.map .reserved

def gated (decision : GateDecision) (next : Passage) : Passage :=
  Passage.after decision.events (match decision.ruling with
    | some ruling => ruled .allowance ruling next
    | none => next)

structure Settlement where
  events : List Event
  gaps : List String

variable (T : Texts)

/-- `SettlementFailure`, as it is displayed. -/
def settlement_failure (observed : Option Money) (reservation : Option String) (error : String) : String :=
  match observed, reservation with
  | some observed, some id =>
    "Money moved and the allowance ledger did not count it: the receipt reported " ++ T.as_decimal_string observed ++
      " " ++ observed.currency ++ " against reservation " ++ id ++ ", and the ledger did not record the commit (" ++
      error ++ "). The reservation stays unresolved until the expiry sweep releases it, and the period's committed " ++
      "total omits this charge."
  | some observed, none =>
    "Money moved and the allowance ledger did not count it: the receipt reported " ++ T.as_decimal_string observed ++
      " " ++ observed.currency ++ " with nothing reserved, and the ledger did not record the commit (" ++ error ++
      "). The period's committed total omits this charge."
  | none, some id =>
    "No charge in currency was reported against reservation " ++ id ++ ", and the ledger did not record its release (" ++
      error ++ "). The reservation stays held until the expiry sweep releases it."
  | none, none => "The allowance ledger did not record this settlement (" ++ error ++ ")."

def fault {α : Type} : Except String α → Option String
  | .ok _ => none
  | .error error => some error

def settle_success (context : AllowanceContext) (ledger : Ledger) (reservation : Option String)
    (charge : AcquisitionCharge) : Settlement :=
  let settled : Settlement := {
    events := [.settled reservation charge.money (fault ledger.settle)]
    gaps := ((fault ledger.settle).map (settlement_failure T charge.money reservation)).toList }
  match reservation with
  | some _ => settled
  | none => if charge.money.isSome && context.declared then settled else ⟨[], []⟩

def release_failure (error : String) : String := "The allowance reservation could not be released: " ++ error

def release_after_failure (ledger : Ledger) (reservation : String) : Settlement where
  events := [.released reservation (fault ledger.release)]
  gaps := ((fault ledger.release).map release_failure).toList

variable (host_of : String → String) (setting : Setting) (world : World)

def account (reservation : Option String) (charge : AcquisitionCharge) : Settlement :=
  match setting.allowance with
  | some context => settle_success T context world.ledger reservation charge
  | none => ⟨[], []⟩

def unaccount (reservation : Option String) : Settlement :=
  match setting.allowance, reservation with
  | some _, some reservation => release_after_failure world.ledger reservation
  | _, _ => ⟨[], []⟩

def mode : PolicyMode := enforcement_mode setting.policy setting.suite

def eligibility : Ruling :=
  check_policy setting.policy setting.suite fun job => provider_eligibility job setting.provider

def fetch_target_admission (job : ContextJob) (target provider : String) : Ruling :=
  let provider_ruling := provider_eligibility job provider
  if provider_ruling.is_refusal then provider_ruling
  else
    match source_host_admission T job (host_of target) (some provider) none with
    | .allowed => provider_ruling
    | ruling => ruling

def target_ruling : Option Ruling :=
  if setting.policy.isSome && setting.capability = .fetch then
    setting.fetch_target.map fun target => check_policy setting.policy setting.suite fun job =>
      fetch_target_admission T host_of job target setting.provider
  else none

def authorised : Bool := setting.allow_external_acquisition || setting.replay || setting.capability = .query

def unauthorised_gap : String :=
  match setting.capability with
  | .invoke => "This run was not authorised to execute anything, so the skill was not invoked and no process was " ++
      "spawned. Re-run with --live and a catalogue declaring it."
  | _ => "This run was not authorised to make external provider calls, so no acquisition was attempted. Re-run with " ++
      "--live and a configured credential."

def capped_gap (cap : Nat) : String :=
  "This job asked " ++ setting.provider ++ " for " ++ toString setting.limit ++ " results and " ++ setting.provider ++
    " publishes a search page of " ++ toString cap ++ ", so " ++ toString cap ++ " were requested. A plan compared " ++
    "against one that ran at the job's own size ran at a different size."

def coverage_gap (acquisition : Acquisition) : List String :=
  if setting.capability = .query ∧ acquisition.envelopes < setting.limit then
    ["The corpus held " ++ toString acquisition.envelopes ++ " document(s) matching this job against the " ++
      toString setting.limit ++ " requested; the sealed query response names every document scanned."]
  else []

def workflow_gap (quote : SupplyQuote) : String :=
  "The preview answered workflow \"" ++ quote.workflow ++ "\"; the only settlement path this runtime has recorded " ++
    "evidence for is \"requires_confirm\", so nothing was bought and no content was taken from the preview."

def seal_response (gaps : List String) (then_ : Settlement) : Passage :=
  match world.write .response with
  | .error error => ⟨[], .failed error⟩
  | .ok _ => ⟨.sealed .response :: then_.events, .planned (gaps ++ then_.gaps ++ world.later)⟩

def buy (supplier : Supplier) (reservation : Option String) : Passage :=
  match supplier.answer .confirm with
  | .ok settled =>
    let settlement := account T setting world reservation settled.charge
    (seal_response world (settlement.gaps ++ coverage_gap setting settled) ⟨[], []⟩).after
      (.dispatched .confirm :: .receipt settled.charge :: settlement.events)
  | .error error =>
    let settlement := unaccount setting world reservation
    ⟨.dispatched .confirm :: settlement.events, .planned (settlement.gaps ++ [error])⟩

def purchase_ruling (quote : SupplyQuote) : Ruling :=
  check_policy setting.policy setting.suite fun job =>
    purchase_decision T job quote.charge (quote.billing_status = some "trial")

def quote_gate (quote : SupplyQuote) : GateDecision :=
  match setting.allowance with
  | some context =>
    allowance_gate T context world.ledger (mode setting) quote.charge (quote.billing_status = some "trial")
  | none => ⟨none, none, none⟩

def decide_purchase (supplier : Supplier) (quote : SupplyQuote) : Passage :=
  if quote.workflow ≠ "requires_confirm" then ⟨[], .planned [workflow_gap quote]⟩
  else
    ruled .purchase (purchase_ruling T setting quote) <|
      gated (quote_gate T setting world quote) <|
        buy T setting world supplier (quote_gate T setting world quote).reservation

def quoted_purchase (supplier : Supplier) : Passage :=
  match supplier.quote with
  | .error error => ⟨[], .planned [error]⟩
  | .ok quote =>
    match world.write .inspect with
    | .error error => ⟨[], .failed error⟩
    | .ok _ =>
      match world.write .preview with
      | .error error => ⟨[.sealed .inspect], .failed error⟩
      | .ok _ => (decide_purchase T setting world supplier quote).after [.sealed .inspect, .sealed .preview]

def dispatch_gate (supplier : Supplier) : GateDecision :=
  if setting.capability = .search ∨ setting.capability = .fetch then
    match setting.allowance with
    | some context => pre_dispatch T context world.ledger (mode setting) (supplier.published_price setting.capability)
    | none => ⟨none, none, none⟩
  else ⟨none, none, none⟩

def callOf : Option Call :=
  match setting.capability with
  | .query => some .query
  | .invoke => some .invoke
  | .fetch => setting.fetch_target.map fun _ => .fetch
  | _ => some .search

def capped (supplier : Supplier) : List String :=
  if callOf setting = some .search then
    ((supplier.maximum_search_results.filter (· < setting.limit)).map (capped_gap setting)).toList
  else []

def account_direct (reservation : Option String) (charge : AcquisitionCharge) : Settlement :=
  if setting.capability = .search ∨ setting.capability = .fetch then account T setting world reservation charge
  else ⟨[], []⟩

def acquire (supplier : Supplier) (reservation : Option String) : Passage :=
  match callOf setting with
  | none =>
    let settlement := unaccount setting world reservation
    ⟨settlement.events, .planned (("provider " ++ setting.provider ++ " does not implement Fetch, and its adapter " ++
      "declares only what it implements") :: settlement.gaps)⟩
  | some call =>
    match supplier.answer call with
    | .ok acquisition =>
      (seal_response world (capped setting supplier ++ coverage_gap setting acquisition)
        (account_direct T setting world reservation acquisition.charge)).after
          [.dispatched call, .receipt acquisition.charge]
    | .error error =>
      let settlement := unaccount setting world reservation
      ⟨.dispatched call :: settlement.events, .planned (error :: settlement.gaps)⟩

def acquisition : Passage :=
  if !authorised setting then ⟨[], .planned [unauthorised_gap setting]⟩
  else
    match world.supplier with
    | .error error => ⟨[], .planned [error]⟩
    | .ok supplier =>
      if .quote ∈ setting.capabilities then quoted_purchase T setting world supplier
      else
        gated (dispatch_gate T setting world supplier) <|
          acquire T setting world supplier (dispatch_gate T setting world supplier).reservation

def provider_plan : Passage :=
  ruled .eligibility (eligibility setting) <|
    match target_ruling T host_of setting with
    | some ruling => ruled .target ruling (acquisition T setting world)
    | none => acquisition T setting world

end CommonMeasure.Purchase
