import CommonMeasure.Mediation.Crossing

/-!
# Whether a reporting demand can be met

What a session rules on a demand that its use of a source be reported, from the home as it stands at the ruling: the policy, the
relay's file, the enrolment, the consent and how reports are delivered.
-/

namespace CommonMeasure.Reporting

open Mediation (AgentText Spoken)

/-! ### URLs -/

structure Urls (Url : Type) where
  parse : String → Option Url
  is_private : Url → Bool
  before_path : Url → String
  matching_url : Url → String
  /-- Every reading of a URL, where they are not too many. -/
  matching_url_readings : Url → Option (List String)
  host_of : String → String
  normalised_host : String → String
  robots_url_of : String → String
  /-- The URL batches for a receiver are posted to, and a URL the transport can post to. -/
  posted_endpoint : String → Option Url
  parsed_endpoint : String → Option Url
  origin_of : String → Option String
  receiver_origin : String → Option String
  /-- A receiver as a record names it: by origin and digest. -/
  on_record : String → String
  quoted_url : String → String
  sentence_url : String → String

section

variable {Url : Type} (u : Urls Url)

def recordable (raw : String) : Bool :=
  match u.parse raw with
  | none => false
  | some parsed => !u.is_private parsed

def under_a_prefix (readings : Option (List String)) (page : String) (prefixes : List String) : Bool :=
  match readings with
  | some readings => prefixes.any fun prefix_ => readings.any fun reading => prefix_.toList.isPrefixOf reading.toList
  | none =>
    let origin (url : String) := (u.parse url).map u.before_path
    prefixes.any fun prefix_ => (origin prefix_).any fun at_ => origin page = some at_

def matches_internal_prefix (raw : String) (internal_prefixes : List String) : Bool :=
  match u.parse raw with
  | none => false
  | some parsed =>
    under_a_prefix u (u.matching_url_readings parsed) (u.matching_url parsed)
      ((internal_prefixes.filterMap u.parse).map u.matching_url)

def projectable (raw : String) (internal_prefixes : List String) : Bool :=
  recordable u raw && ! matches_internal_prefix u raw internal_prefixes

structure TermsDeclaration where
  host : String
  reference : String
  requires_reporting : Bool
  access_context : List String
  anchor : Option String

structure SessionPolicy where
  terms : List TermsDeclaration
  record_internal_prefixes : List String
  governing_engagement : Option String
  allow_telemetry_egress : Bool

structure PolicyDocument where
  terms : List TermsDeclaration
  record_internal_prefixes : List String
  /-- The engagement a directory falls under, and what its scope or its selection clears. -/
  scope : Option String → Option String × Bool

def PolicyDocument.resolve (document : PolicyDocument) (cwd : Option String) : SessionPolicy where
  terms := document.terms
  record_internal_prefixes := document.record_internal_prefixes
  governing_engagement := (document.scope cwd).1
  allow_telemetry_egress := (document.scope cwd).2

namespace SessionPolicy

def allows_telemetry_egress (policy : SessionPolicy) : Bool :=
  policy.governing_engagement.isSome && policy.allow_telemetry_egress

def terms_for (policy : SessionPolicy) (host : String) : Option TermsDeclaration :=
  let wanted := u.normalised_host host
  if wanted.isEmpty then none else policy.terms.find? fun declared => u.normalised_host declared.host = wanted

end SessionPolicy

def access_context_terms (policy : PolicyDocument) (cwd : Option String) (host : String) : Option String :=
  (((policy.resolve cwd).terms_for u host).filter fun terms => !terms.access_context.isEmpty).map (·.reference)

def anchor_terms (policy : PolicyDocument) (cwd : Option String) (host : String) : Option (String × String) :=
  ((policy.resolve cwd).terms_for u host).bind fun terms => terms.anchor.map fun anchor => (terms.reference, anchor)

end

inductive Standing where
  | not_given
  | agreed (at_ : String)
  | withdrawn (at_ : String)
  | unreadable (error : String)

namespace Standing

def state : Standing → String
  | .not_given => "not_given"
  | .agreed _ => "agreed"
  | .withdrawn _ => "withdrawn"
  | .unreadable _ => "unreadable"

def AGREE_COMMAND : String := "commonmeasure consent agree"

def unmet_reason (standing : Standing) (file : String) : Option String :=
  match standing with
  | .agreed _ => none
  | .not_given => some ("the operator has not agreed to report to sources that require it; agree with `" ++
    AGREE_COMMAND ++ "`")
  | .withdrawn at_ => some ("the operator withdrew consent to report to sources that require it on " ++ at_ ++
    "; agree again with `" ++
      AGREE_COMMAND ++ "`")
  | .unreadable error => some ("the reporting consent in " ++ file ++ " cannot be used (" ++ error ++
    "), and such a file is not " ++
      "consent; repair the file or record consent again with `" ++ AGREE_COMMAND ++ "`")

end Standing

structure ConsentOnRecord where
  state : String
  at_ : Option String

def Standing.on_record (standing : Standing) : ConsentOnRecord where
  state := standing.state
  at_ := match standing with
    | .agreed at_ => some at_
    | .withdrawn at_ => some at_
    | _ => none

structure EnrolmentRecord where
  hub : String
  revoked_at : Option String
  revocation_learnt_at : Option String

def EnrolmentRecord.is_revoked (record : EnrolmentRecord) : Bool :=
  record.revoked_at.isSome || record.revocation_learnt_at.isSome

structure Home where
  policy : Except String PolicyDocument
  /-- The receiver `relay.json` names. -/
  relay : Except String (Option String)
  enrolment : Except String (Option EnrolmentRecord)
  consent : Standing
  manual_marker : Bool
  service_running : Bool
  relay_loop_running : Bool

structure Session where
  policy : SessionPolicy
  cwd : Option String
  host : String
  client : Option String
  interval_relay : Bool
  /-- The Anchor the fetch under way is made for. -/
  fetch_anchor : Option String
  /-- Whether the host observes what enters its context. -/
  host_observations : Bool
  /-- Whether this session's log reads as the relay reads it. -/
  log_reads : Except String Unit
  policy_file : String
  relay_file : String
  marker_file : String
  consent_file : String
  log_file : String
  home_named_in : String → String

section

variable {Url : Type} (u : Urls Url) (home : Home) (session : Session)

def SESSION_END_HOSTS : List String := ["claude-code"]

def CLAUDE_CODE_CLIENT : String := "claude-code"

def is_other_client (name : String) : Bool :=
  ["codex-mcp-client", "claude-ai", "cursor-vscode"].contains name || "local-agent-mode-".toList.isPrefixOf name.toList

/-- `SessionDelivery::withheld_reason`. -/
def withheld_reason : Option String :=
  if home.manual_marker then
    some ("the marker file " ++ session.marker_file ++ " switches automatic delivery off, so reports leave only when someone runs " ++
      "`commonmeasure relay`")
  else if session.interval_relay || home.service_running || home.relay_loop_running then none
  else if !SESSION_END_HOSTS.contains session.host then
    some ("no automatic delivery; this host (" ++ session.host ++ ") sends no session-end event and no background relay " ++
      "(`commonmeasure relay --every`) holds this home, so reports leave only when someone runs `commonmeasure relay`")
  else
    match session.client with
    | none => none
    | some client =>
      if client = CLAUDE_CODE_CLIENT then none
      else if is_other_client client then
        some ("no automatic delivery; the client " ++ client ++
          " is not Claude Code and sends no session-end event, although the " ++
          "server was started for " ++ session.host ++ ", so reports leave only when someone runs `commonmeasure relay`")
      else
        some ("no automatic delivery; the client " ++ client ++ " does not announce itself as Claude Code (" ++
          CLAUDE_CODE_CLIENT ++
          "), the one client known to send a session-end event, although the server was started for " ++ session.host ++
          ", so reports leave only when someone runs `commonmeasure relay`")

inductive ReportingRoute where
  | licence_endpoint
  | hub
  deriving DecidableEq

inductive ReportingSource where
  | operator_agreement
  deriving DecidableEq

variable [DecidableEq Url]

def posts_to (receiver endpoint : String) : Bool :=
  match u.posted_endpoint receiver, u.parsed_endpoint endpoint with
  | some posted, some endpoint => posted = endpoint
  | _, _ => false

def hub_standing : String × AgentText :=
  let at_hub_origin (hub : String) := ((u.receiver_origin hub).map (" at " ++ ·)).getD ""
  match home.enrolment with
  | .ok none => ("this edge is not enrolled with a hub", "this edge is not enrolled with a hub")
  | .ok (some record) =>
    if record.is_revoked then (
      "the key this edge enrolled with the hub" ++ at_hub_origin record.hub ++ " is revoked, and the hub refuses its events",
      "the key this edge enrolled with the hub is revoked, and the hub refuses its events")
    else ("this edge is enrolled with the hub" ++ at_hub_origin record.hub, "this edge is enrolled with the hub")
  | .error error => (session.home_named_in error, session.home_named_in error)

def unrouted (receiver : String) (endpoint : Option String) (source : Option ReportingSource) : String × AgentText :=
  let (hub, hub_told) := hub_standing u home session
  let receiver := "the receiver " ++ u.on_record receiver ++ " in " ++ session.relay_file
  match endpoint with
  | some endpoint => (
    receiver ++ " is neither the hub this edge is enrolled with nor the licence's endpoint " ++ u.sentence_url endpoint ++
      " (the relay posts to the receiver followed by /events), so no report would reach that endpoint; " ++ hub,
    receiver ++ " is neither the hub this edge is enrolled with nor the endpoint the licence names (the relay posts to the receiver " ++
      "followed by /events), so no report would reach that endpoint; " ++ hub_told)
  | none =>
    let why :=
      if source = some .operator_agreement then
        " is not the hub this edge is enrolled with, and the agreement names no endpoint, so only the hub this edge is enrolled with " ++
          "is a route; "
      else
        " is not the hub this edge is enrolled with, and the licence names no endpoint to report to directly, so no report would reach " ++
          "the source; "
    (receiver ++ why ++ hub, receiver ++ why ++ hub_told)

def reporting_route (receiver : String) (endpoint : Option String) (source : Option ReportingSource) :
    Except (String × AgentText) ReportingRoute :=
  if endpoint.any (posts_to u receiver ·) then .ok .licence_endpoint
  else
    match home.enrolment with
    | .ok (some record) =>
      if !record.is_revoked && (u.origin_of record.hub).isSome && u.origin_of receiver = u.origin_of record.hub then .ok .hub
      else .error (unrouted u home session receiver endpoint source)
    | _ => .error (unrouted u home session receiver endpoint source)

structure ReportingRuling where
  source : Option ReportingSource
  reference : Option String
  profile : Option String
  conformance_level : Option String
  receiver : Option String
  route : Option ReportingRoute
  telemetry_egress_cleared : Bool
  consent : Option ConsentOnRecord
  consent_needed : Bool
  met : Bool
  reason : Option String
  agent_reason : Option AgentText

/-- `PolicyDocument::read`, resolved for this session's directory. -/
def current : Except String SessionPolicy := home.policy.map (·.resolve session.cwd)

def internal_prefixes : List String :=
  session.policy.record_internal_prefixes ++ ((current home session).toOption.map (·.record_internal_prefixes)).getD []

def access_context_hold (url : String) : Option (String × AgentText) :=
  home.policy.toOption.bind fun document =>
    let host := u.host_of url
    (access_context_terms u document session.cwd host).map fun reference => (
      "the operator terms " ++ reference ++ " for " ++ host ++
        " require access_context on the session, which the event-batch " ++
        "delivery format cannot carry, so the relay would hold this crossing and nothing would be reported",
      "the operator terms for this host require access_context on the session, which the event-batch delivery format cannot carry, " ++
        "so the relay would hold this crossing and nothing would be reported")

def anonymous_hold (url : String) : Option (String × AgentText) :=
  home.policy.toOption.bind fun document =>
    let host := u.host_of url
    (anchor_terms u document session.cwd host).map fun (reference, anchor) => (
      "the operator terms " ++ reference ++ " for " ++ host ++ " name the Anchor " ++ anchor ++
        ", which puts its crossings under the " ++
        "anonymous access profile; those are never cleared for relay egress, so nothing would be reported",
      "the operator terms for this host put it under the anonymous access profile, whose crossings are never cleared for relay " ++
        "egress, so nothing would be reported")

def unreadable_session_log : Option (String × AgentText) :=
  match session.log_reads with
  | .ok _ => none
  | .error error => some (
    "this session's log " ++ session.log_file ++ " does not read (" ++ error ++
      "), and the relay sends nothing from a log it cannot " ++
      "read, so nothing would be reported",
    "this session's log " ++ session.log_file ++ " does not read, and the relay sends nothing from a log it cannot read, so nothing " ++
      "would be reported; the record names the error")

def consent_reason : Option (String × AgentText) :=
  (home.consent.unmet_reason session.consent_file).map fun reason =>
    (session.home_named_in reason, session.home_named_in reason)

def undeliverable (url : String) (route : Option (Except (String × AgentText) ReportingRoute)) : Option (String × AgentText) :=
  let same (sentence : String) : Option (String × AgentText) := some (sentence, sentence)
  if !recordable u url then some (
    url ++ " is a local or private address, whose events the relay never sends, so nothing would be reported",
    "the source is a local or private address, whose events the relay never sends, so nothing would be reported")
  else if !projectable u url (internal_prefixes home session) then some (
    url ++ " is under a prefix " ++ session.policy_file ++ " names in \"record_internal_prefixes\", whose events the relay never " ++
      "sends, so nothing would be reported",
    "the source is under a prefix " ++ session.policy_file ++ " names in \"record_internal_prefixes\", whose events the relay never " ++
      "sends, so nothing would be reported")
  else
    match current home session, home.relay, route with
    | .error error, _, _ => same (session.home_named_in error ++ ", so nothing would be reported")
    | .ok _, .error error, _ => same (session.home_named_in error ++ ", so nothing would be reported")
    | .ok _, .ok none, _ =>
      same ("no telemetry receiver is configured in " ++ session.relay_file ++ ", so nothing would be reported")
    | .ok _, .ok (some _), some (.error unrouted) => some unrouted
    | .ok _, .ok (some _), _ =>
      ((withheld_reason home session).map fun reason => (reason, reason)) <|> access_context_hold u home session url <|>
        anonymous_hold u home session url <|> unreadable_session_log session

def reporting_ruling_for (url : String) (profile conformance_level endpoint : Option String) (source : Option ReportingSource) :
    ReportingRuling :=
  let receiver := home.relay.toOption.bind id
  let route := receiver.map fun receiver => reporting_route u home session receiver endpoint source
  let kept_back := undeliverable u home session url route
  let told := kept_back <|> consent_reason home session
  { source, reference := none, profile, conformance_level
    receiver := receiver.map u.on_record
    route := route.bind (·.toOption)
    telemetry_egress_cleared := session.policy.allows_telemetry_egress &&
      ((current home session).toOption.map (·.allows_telemetry_egress)).getD false
    consent := some home.consent.on_record
    consent_needed := kept_back.isNone && told.isSome
    met := told.isNone
    reason := told.map (·.1)
    agent_reason := told.map (·.2) }

structure RslReporting where
  kind : String
  profile : String
  endpoint : Option String
  /-- The `conformance_level` text of the element's body. -/
  conformance_level : Option String

def TELEMETRY_PROFILE : String := "https://contenttelemetry.org/profiles/spur"

def unsupported (demand : RslReporting) : Option String :=
  if demand.profile ≠ TELEMETRY_PROFILE then
    some "this runtime reports under https://commonmeasure.ai/telemetry/v1 only and does not recognise the profile"
  else
    match demand.conformance_level with
    | some level =>
      if level = "retrieval" ∨ level = "grounding" then none
      else some ("the licence demands a conformance level other than retrieval or grounding, the only events this runtime emits")
    | none => some "the reporting configuration names no conformance_level this runtime can read"

def reporting_ruling (url : String) (demand : RslReporting) : ReportingRuling :=
  let ruling := reporting_ruling_for u home session url (some demand.profile) demand.conformance_level demand.endpoint none
  match unsupported demand with
  | some unsupported =>
    { ruling with
      agent_reason := some unsupported
      reason := some unsupported
      consent_needed := false
      met := false }
  | none => { ruling with met := ruling.reason.isNone }

/-! ### What a source declares -/

inductive LicenceMechanism where
  | link_header
  | robots_license
  deriving DecidableEq

structure LicenceOutcome where
  url : String
  mechanism : LicenceMechanism
  /-- The reporting its terms demand, where it was read. -/
  terms : Option (List RslReporting)

structure Agreement where
  reference : String
  requires_reporting : Bool

structure Declared (B : Type) where
  licences : List LicenceOutcome
  terms : Option Agreement
  reporting : Option ReportingRuling
  reporting_demands : List ReportingRuling
  rest : B

variable {B : Type}

/-- The licences the page's header named where any was read, else those `robots.txt` named. -/
def Declared.governing_licences (declarations : Declared B) : List (LicenceOutcome × List RslReporting) :=
  let ranked (mechanism : LicenceMechanism) : List (LicenceOutcome × List RslReporting) :=
    (declarations.licences.filter (·.mechanism = mechanism)).filterMap fun licence => licence.terms.map (licence, ·)
  let page := ranked .link_header
  if page.isEmpty then ranked .robots_license else page

def is_its_own_robots (url : String) : Bool := url = u.robots_url_of url

def named_reporting_kind (kind : String) : String :=
  if kind = "" then "unstated"
  else if kind = "telemetry" ∨ kind = "provenance" ∨ kind = "audit" then kind
  else "another type"

def binding_breach (reason : String) (agent_reason : AgentText) : Spoken := ⟨.refused reason, agent_reason⟩

def other_demand (licence : LicenceOutcome) (demand : RslReporting) : Spoken :=
  let profile := if demand.profile.isEmpty then "unstated" else u.quoted_url demand.profile
  let kind := named_reporting_kind demand.kind
  binding_breach
    ("The licence " ++ licence.url ++ " requires reporting of type " ++ kind ++ " (profile " ++ profile ++
      ") and the demand cannot be " ++
      "met: this runtime reports telemetry only.")
    ("The licence the source names requires reporting of type " ++ kind ++
      " and the demand cannot be met: this runtime reports " ++
      "telemetry only.")

def unmet_demand (url : String) (licence : LicenceOutcome) (demand : RslReporting) (ruling : ReportingRuling) : Option Spoken :=
  let agent_reason := ruling.agent_reason.getD ""
  ruling.reason.map fun reason =>
    if ruling.consent_needed then
      binding_breach
        (u.host_of url ++ " needs reporting: its licence " ++ licence.url ++
          " requires telemetry reporting of each use (profile " ++
          u.quoted_url demand.profile ++ "), and " ++ reason ++ ".")
        ("The source needs reporting: its licence requires telemetry reporting of each use, and " ++ agent_reason ++ ".")
    else
      binding_breach
        ("The licence " ++ licence.url ++ " requires telemetry reporting (profile " ++ u.quoted_url demand.profile ++
          ") and the demand " ++
          "cannot be met: " ++ reason ++ ".")
        ("The licence the source names requires telemetry reporting and the demand cannot be met: " ++ agent_reason ++ ".")

def unmet_agreement (url : String) (agreement : Agreement) (ruling : ReportingRuling) : Option Spoken :=
  let agent_reason := ruling.agent_reason.getD ""
  ruling.reason.map fun reason =>
    if ruling.consent_needed then
      binding_breach
        (u.host_of url ++ " needs reporting: the operator's agreement with it (" ++ agreement.reference ++
          ") requires reporting of " ++
          "each use, and " ++ reason ++ ".")
        ("The source needs reporting: the operator's agreement with it (" ++ agreement.reference ++
          ") requires reporting of each use, " ++
          "and " ++ agent_reason ++ ".")
    else
      binding_breach
        ("The operator's agreement with " ++ u.host_of url ++ " (" ++ agreement.reference ++
          ") requires reporting of each use and the " ++
          "demand cannot be met: " ++ reason ++ ".")
        ("The operator's agreement with the source (" ++ agreement.reference ++
          ") requires reporting of each use and the demand " ++
          "cannot be met: " ++ agent_reason ++ ".")

def licence_demand (url : String) (licence : LicenceOutcome) (demand : RslReporting) : Option ReportingRuling × Option Spoken :=
  if demand.kind ≠ "telemetry" then (none, some (other_demand u licence demand))
  else
    let ruling := reporting_ruling u home session url demand
    (some ruling, unmet_demand u url licence demand ruling)

def agreement_demand (url : String) (agreement : Agreement) : Option ReportingRuling × Option Spoken :=
  let ruling := { reporting_ruling_for u home session url none none none (some .operator_agreement) with
    reference := some agreement.reference }
  (some ruling, unmet_agreement u url agreement ruling)

def demands (url : String) (declarations : Declared B) : List (Option ReportingRuling × Option Spoken) :=
  (declarations.governing_licences.flatMap fun (licence, terms) => terms.map (licence_demand u home session url licence)) ++
    ((declarations.terms.filter (·.requires_reporting)).map (agreement_demand u home session url)).toList

/-- `rulings_made`: those of a URL that is its origin's own `robots.txt` are not made. -/
def rulings_made (url : String) (declarations : Declared B) : List ReportingRuling :=
  if is_its_own_robots u url then [] else (demands u home session url declarations).filterMap (·.1)

/-- The rulings on a source's declarations: on `robots.txt`, on the licences' other terms, which are given, and on the reporting they
demand. -/
def rule_on_declarations (robots_rulings other_terms : List Spoken) (url : String) (declarations : Declared B) :
    Declared B × List Spoken :=
  if is_its_own_robots u url then (declarations, robots_rulings)
  else
    let made := rulings_made u home session url declarations
    ({ declarations with
        reporting := made.find? (!·.met) <|> made.getLast?
        reporting_demands := if 1 < made.length then made else [] },
      robots_rulings ++ other_terms ++ (demands u home session url declarations).filterMap (·.2))

end

end CommonMeasure.Reporting
