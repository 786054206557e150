import CommonMeasure.Reporting.Demands

namespace CommonMeasure.Reporting

open Mediation (FetchFacts)

structure Payload where
  cwd : Option String
  detail_cwd : Option String
  host_name : Option String
  url : Option String
  timestamp : Option String
  privacy_level : Option String
  internal : Bool
  failure : Option String
  http_status : Option Nat
  grounded : Bool
  /-- Whether its context is left for the host to observe. -/
  host_required : Bool
  anonymous : Bool
  /-- Whether the reporting it declares was met, and the state of the consent it was met under. -/
  reporting : Option (Bool × Option String)

structure Record where
  event : String
  payload : Payload

namespace Record

def is_witnessed (record : Record) : Bool := record.event = "crossing_observed" || record.event = "crossing_mediated"

def is_refused (record : Record) : Bool := record.event = "crossing_refused"

def is_turn_boundary (record : Record) : Bool := record.event = "turn_started" || record.event = "turn_completed"

def under_anonymous_profile (record : Record) : Bool := record.payload.anonymous

def reported_under_consent (record : Record) : Bool :=
  record.is_witnessed && record.payload.reporting.any fun reporting => reporting.1 && reporting.2 = some "agreed"

end Record

inductive Cleared where
  | scope (engagement : String)
  | reporting_consent
  deriving DecidableEq

def clearance (policy : PolicyDocument) (record : Record) : Option Cleared :=
  if !(record.is_witnessed || record.is_refused || record.is_turn_boundary) || record.under_anonymous_profile then none
  else
    let resolved := policy.resolve (if record.is_turn_boundary then record.payload.detail_cwd else record.payload.cwd)
    (if resolved.allows_telemetry_egress then resolved.governing_engagement.map .scope else none) <|>
      (if record.reported_under_consent then some .reporting_consent else none)

section

variable {Url : Type} (u : Urls Url)

def held_for_access_context (policy : PolicyDocument) (record : Record) : Option String :=
  if !record.is_witnessed then none
  else access_context_terms u policy record.payload.cwd (record.payload.host_name.getD "")

def may_project (policy : PolicyDocument) (records : List Record) (position : Nat) : Bool :=
  records[position]?.any fun record => (clearance policy record).isSome && (held_for_access_context u policy record).isNone

inductive WireEventKind where
  | content_retrieved
  | content_grounded
  | content_cited
  | turn_started
  | turn_completed
  deriving DecidableEq

structure WireEvent where
  kind : WireEventKind
  position : Nat
  deriving DecidableEq

structure Wire where
  rfc3339 : Int → String
  normalise_timestamp : String → Option String
  /-- What is written is read. -/
  reads : ∀ instant, (normalise_timestamp (rfc3339 instant)).isSome = true
  /-- The acquisitions an output's citations name. -/
  cited : List Record → Nat → (Nat → Bool) → List Nat
  /-- The observations that ground an acquisition. -/
  observations : List Record → Nat → (Nat → Bool) → List Nat

variable (w : Wire)

def Payload.retrieved_nothing (payload : Payload) : Bool :=
  payload.failure.isSome || payload.http_status.any fun status => !(200 ≤ status && status < 300)

def crossing_events (records : List Record) (internal_prefixes : List String) (projects : Nat → Bool) (position : Nat)
    (payload : Payload) : List WireEvent :=
  match payload.url, payload.timestamp.bind w.normalise_timestamp with
  | some url, some _ =>
    if payload.internal || !projectable u url internal_prefixes || payload.retrieved_nothing then []
    else
      ⟨.content_retrieved, position⟩ ::
        (if payload.host_required then (w.observations records position projects).map fun _ => ⟨.content_grounded, position⟩
        else if payload.grounded then [⟨.content_grounded, position⟩]
        else [])
  | _, _ => []

def turn_events (position : Nat) (record : Record) : List WireEvent :=
  match record.payload.timestamp.bind w.normalise_timestamp with
  | none => []
  | some _ =>
    if record.payload.privacy_level = some "minimal" then
      [⟨if record.event = "turn_started" then .turn_started else .turn_completed, position⟩]
    else []

def record_events (records : List Record) (internal_prefixes : List String) (projects : Nat → Bool) (position : Nat)
    (record : Record) :
    List WireEvent :=
  if record.event = "output_associated" then (w.cited records position projects).map fun acquisition =>
    ⟨.content_cited, acquisition⟩
  else if !projects position then []
  else if record.is_turn_boundary then turn_events w position record
  else if !record.is_witnessed then []
  else crossing_events u w records internal_prefixes projects position record.payload

def project_session (records : List Record) (internal_prefixes : List String) (projects : Nat → Bool) : List WireEvent :=
  let events := records.zipIdx.flatMap fun entry => record_events u w records internal_prefixes projects entry.2 entry.1
  if events.any (·.kind = .content_retrieved) then events else []

variable {B R I : Type}

/-- `McpServer::record` and `SessionLog::record_crossing_for`, as the relay reads them. -/
def crossing_record (session : Session) (timestamp : Int) (facts : FetchFacts (Declared B) R I) : Record where
  event := if facts.refusal.isSome then "crossing_refused" else "crossing_mediated"
  payload :=
    let host_required := session.host_observations && facts.failure.isNone && facts.http_status.isSome
    let reporting := facts.declarations.bind (·.reporting)
    { cwd := session.cwd
      detail_cwd := none
      host_name := some (u.host_of facts.url)
      url := some facts.url
      timestamp := some (w.rfc3339 timestamp)
      privacy_level := none
      internal := matches_internal_prefix u facts.url session.policy.record_internal_prefixes
      failure := facts.failure
      http_status := facts.http_status
      grounded := facts.grounded && !host_required
      host_required
      anonymous := session.fetch_anchor.isSome
      reporting := reporting.map fun ruling => (ruling.met, ruling.consent.map (·.state)) }

end

end CommonMeasure.Reporting
