import CommonMeasure.Mediation.Crossing

/-!
# One search

`governed_search`, over what everything it consults answers: the gate before the supplier is called, one call, and what is written
to the ledger after it.
-/

namespace CommonMeasure.Mediation

open Admission (Ruling Money PolicyMode)
open Purchase (AllowanceContext GateDecision Ledger ProviderCapability Acquisition)

def MEDIATED_CAPABILITIES : List ProviderCapability := [.search, .query]

inductive SupplyError where
  | credential_missing (variable_ : String)
  | other (detail : String)

/-- An adapter, by what it declares and its answers. A query bills nothing: the corpus is the operator's own. -/
structure Adapter where
  capabilities : List ProviderCapability
  published_price : ProviderCapability → Option Money
  search : Except String Acquisition
  query : Except String Acquisition
  free : ∀ acquisition, query = .ok acquisition → acquisition.charge = ⟨none, none⟩

structure SearchOccasion where
  mode : PolicyMode
  allowance : Option AllowanceContext
  /-- An allowance is accounted for where one is declared. -/
  declared : ∀ context, allowance = some context → context.declared = true
  home : Bool
  policy_named : AgentText
  policy_source : String
  session_start : Except String Unit
  query : Option String
  provider : String
  instance_permits : Except AgentText Unit
  permits_provider : Spoken
  record_provider_ruling : Except String Unit
  supplier : Except SupplyError Adapter
  credentials : String
  redact_supplier_errors : Bool
  ledger : Ledger
  gate_reason : AgentText
  /-- The sentence of a reservation that could not be released. -/
  unreleased : String → String → String

structure Delivery where
  acquisition : Acquisition
  provider_policy_breach : Option String
  allowance : Option AllowanceRecord

structure SearchPassage (D R I : Type) where
  events : List (Event D R I)
  exit : Except String Delivery

variable {D R I : Type} (T : Admission.Texts) (o : SearchOccasion)

def unavailable_credential (variable_ : String) : String :=
  "unavailable: " ++ o.provider ++ " needs " ++ variable_ ++ ", which is not configured. Set it in " ++ o.credentials ++
    " (KEY=VALUE lines, chmod 600), or export it in the environment that launches the harness — the environment wins where both name " ++
    "it. No search was attempted."

def SearchPassage.after (events : List (Event D R I)) (passage : SearchPassage D R I) : SearchPassage D R I :=
  ⟨events ++ passage.events, passage.exit⟩

def supplier_failed (error : String) : String :=
  if o.redact_supplier_errors then
    "unavailable: supplier request failed; no usable receipt was returned (charge and supplier latency unknown)"
  else error

def account_search (call : Purchase.Call) (answer : Except String Acquisition)
    (consulted : Option (AllowanceContext × GateDecision)) :
    SearchPassage D R I :=
  SearchPassage.after [.supplied call] (match answer with
    | .error error =>
      let detail := supplier_failed o error
      match consulted with
      | some (_, decision) =>
        let unreleased := decision.reservation.bind fun reservation =>
          (Purchase.fault o.ledger.release).map fun fault => detail ++ "; " ++ o.unreleased reservation fault
        ⟨ledger_events (release_mediated o.ledger decision), .error (unreleased.getD detail)⟩
      | none => ⟨[], .error detail⟩
    | .ok acquisition =>
      match consulted with
      | some (context, decision) =>
        let written := settle_mediated T context o.ledger decision acquisition.charge
        ⟨ledger_events written, .ok ⟨acquisition, o.permits_provider.ruling.reason, some ⟨decision, written, none⟩⟩⟩
      | none => ⟨[], .ok ⟨acquisition, o.permits_provider.ruling.reason, none⟩⟩)

def not_mediated : String :=
  "unavailable: " ++ o.provider ++ " declares no capability this session surface mediates. Mediated tools search and query; they " ++
    "never invoke a skill or settle a purchase, because this surface takes no decision that could authorise either."

def dispatch (adapter : Adapter) (mediated : Option ProviderCapability) (consulted : Option (AllowanceContext × GateDecision)) :
    SearchPassage D R I :=
  match mediated with
  | some .search => account_search T o .search adapter.search consulted
  | some .query => account_search T o .query adapter.query consulted
  | _ => ⟨[], .error (not_mediated o)⟩

def no_ledger : String :=
  "unavailable: the policy source " ++ o.policy_source ++ " has no parent directory, so the allowance ledger cannot be located and the " ++
    "declared allowance cannot be enforced. No search was attempted."

def Adapter.mediated (adapter : Adapter) : Option ProviderCapability := adapter.capabilities.find? (· ∈ MEDIATED_CAPABILITIES)

def gated_search (adapter : Adapter) : SearchPassage D R I :=
  match adapter.mediated, o.allowance with
  | some .search, some context =>
    if o.home then
      let decision := Purchase.pre_dispatch T context o.ledger o.mode (adapter.published_price .search)
      SearchPassage.after (decision.events.map .ledger)
        (if decision.ruling.any (·.is_refusal) then
          ⟨[], .error ("refused before the crossing: " ++ o.gate_reason ++ " (" ++ o.policy_named ++ ")")⟩
        else dispatch T o adapter (some .search) (some (context, decision)))
    else ⟨[], .error (no_ledger o)⟩
  | mediated, _ => dispatch T o adapter mediated none

def governed_search : SearchPassage D R I :=
  match o.session_start, o.query, o.instance_permits with
  | .error error, _, _ => ⟨[], .error error⟩
  | .ok _, none, _ => ⟨[], .error "query is required"⟩
  | .ok _, some _, .error told => ⟨[], .error told⟩
  | .ok _, some _, .ok _ =>
    let recorded : Except String Unit :=
      if o.permits_provider.ruling.reason.isSome then o.record_provider_ruling else .ok ()
    match recorded with
    | .error error => ⟨[], .error ("could not record provider policy: " ++ error)⟩
    | .ok _ =>
      if o.permits_provider.ruling.is_refusal then
        ⟨[], .error ("refused before the crossing: " ++ o.permits_provider.agent_reason)⟩
      else
        match o.supplier with
        | .error (.credential_missing variable_) => ⟨[], .error (unavailable_credential o variable_)⟩
        | .error (.other detail) =>
          ⟨[], .error (if o.redact_supplier_errors then "unavailable: provider configuration could not be loaded" else detail)⟩
        | .ok adapter => gated_search T o adapter

end CommonMeasure.Mediation
