import CommonMeasure.Evidence.Writers
import CommonMeasure.Foundation.Uuid
import CommonMeasure.Json.Members
import CommonMeasure.Observation.Queries

/-!
# Host observations

A host's request is checked against what the session log establishes and recorded, or refused.
-/

namespace CommonMeasure.Observation

open Json Evidence

/-! ### Requests -/

inductive ActionDecision where
  | allowed | refused

def ActionDecision.text : ActionDecision → String
  | .allowed => "allowed"
  | .refused => "refused"

structure ActionTarget where
  url : String
  recipient : String

inductive Unavailable where
  | providerContext | providerCache | supplierDeliveryIdentity | semanticSupport | processEgress | recipientUse

def Unavailable.text : Unavailable → String
  | .providerContext => "provider_context"
  | .providerCache => "provider_cache"
  | .supplierDeliveryIdentity => "supplier_delivery_identity"
  | .semanticSupport => "semantic_support"
  | .processEgress => "process_egress"
  | .recipientUse => "recipient_use"

def Unavailable.reason : Unavailable → String
  | .providerContext => "the host exposes no provider-internal context event"
  | .providerCache => "the host exposes no provider cache-use event"
  | .supplierDeliveryIdentity => "no supplier-issued delivery identity is exposed"
  | .semanticSupport => "explicit source markers do not measure semantic support"
  | .processEgress => "independent process egress restrictions have not been verified"
  | .recipientUse => "the host cannot observe subsequent recipient access, retention or use"

/-- An action is always `send_acquired_text`. -/
inductive HostEvent (Uuid : Type) where
  | observationsStarted
  | contextEntered (acquisitionId generationId : Uuid) (representationHash : String)
  | outputAssociated (generationId outputId : Uuid) (outputHash : String) (acquisitionIds : List Uuid)
  | actionDecided (actionId generationId acquisitionId : Uuid) (decision : ActionDecision) (ruleId : String)
      (target : ActionTarget) (dataHash hostPolicyHash : String)
  | observationUnavailable (observation : Unavailable)

structure Url where
  scheme : String
  host : Option String
  username : String
  password : Option String
  query : Option String
  fragment : Option String

def isAlphanumeric (b : UInt8) : Bool := isDigit b || 65 ≤ b && b ≤ 90 || 97 ≤ b && b ≤ 122

def validIdentifier (value : String) : Bool :=
  let bytes := utf8 value
  bytes ≠ [] && bytes.length ≤ 128 && bytes.all fun b => isAlphanumeric b || b ∈ utf8 "._-"

def validHash (hash : String) : Bool :=
  let hex := (utf8 hash).drop (utf8 "sha256:").length
  (utf8 "sha256:").isPrefixOf (utf8 hash) && hex.length = 64 && hex.all fun b => isDigit b || 97 ≤ b && b ≤ 102

def ActionTarget.valid (parseUrl : String → Option Url) (target : ActionTarget) : Bool :=
  (parseUrl target.url).any fun destination =>
    (utf8 target.url).length ≤ 2048 && (destination.scheme = "http" || destination.scheme = "https") &&
      destination.host.isSome && destination.username = "" && destination.password.isNone &&
      destination.query.isNone && destination.fragment.isNone && validIdentifier target.recipient

def TURN_PRIVACY_LEVEL : String := "minimal"

def observationBase (sessionId host : String) (now : Stamp) (grade : String) : List (String × Value) :=
  [("session_id", .string sessionId), ("host", .string host), ("timestamp", .string now), ("observer", .string "host"),
    ("grade", .string grade)]

def boundary (output : List (String × Value)) (generation : String) (cwd policyIdentity : Option String) :
    List (String × Value) :=
  let members := swapRemove "acquisition_ids" (swapRemove "output_hash" output)
  let members := setMember members "turn_id" (.string generation)
  let members := setMember members "privacy_level" (.string TURN_PRIVACY_LEVEL)
  let members := setMember members "privacy_basis"
    (.string "the generation boundary carries identifiers and no conversation text")
  let members := setMember members "detail" (.object [("cwd", orNull cwd)])
  match policyIdentity with
  | some identity => setMember members "policy_identity" (.string identity)
  | none => members

structure Reference where
  issuer : String
  id : String
  revision : UInt64

def Reference.value (reference : Reference) : Value :=
  .object [("issuer", .string reference.issuer), ("id", .string reference.id),
    ("revision", .number (.ofNat reference.revision.toNat))]

def withInstance (members : List (String × Value)) : Option Reference → List (String × Value)
  | some reference => setMember members "instance" reference.value
  | none => members

structure Attempt where
  owedClock : Clock
  owed : Outcome
  clock : Clock
  outcome : Outcome
  registered : Option Reference

def logAppend (log : State Unit) (event : String) (members : List (String × Value)) (attempt : Attempt) : State Unit × Bool :=
  let flushed := log.flush () attempt.owedClock attempt.owed
  let after := flushed.append () attempt.clock event (.object (withInstance members attempt.registered)) attempt.outcome
  (after, flushed.returned.length < after.returned.length)

/-- Whether the log holds a complete `observations_started` record. -/
def optedIn (J : Reader) (file : Bytes) : Bool :=
  (splitLines file).1.any fun line =>
    decide (utf8 "observations_started" <:+: line) &&
      (J.fromSlice line).any fun record => isText (record.get "event") "observations_started"

inductive CrossingMode where
  | mediated | observed | reconstructed
  deriving DecidableEq

/-- A crossing, as the members `to_record` gives it: what it lacks it does not name. -/
structure Crossing (J : Reader) where
  mode : CrossingMode
  members : List (String × Value)
  named : (members.map Prod.fst).Nodup
  held : ∀ member ∈ members, J.Holds member.2

section

variable {J : Reader}

def Crossing.has (crossing : Crossing J) (name : String) : Bool := crossing.members.any (·.1 = name)

def Crossing.event (crossing : Crossing J) : String :=
  match crossing.mode, crossing.has "refusal" with
  | .mediated, true => "crossing_refused"
  | .mediated, false => "crossing_mediated"
  | .observed, _ => "crossing_observed"
  | .reconstructed, _ => "crossing_reconstructed"

def Crossing.acquired (crossing : Crossing J) : Bool :=
  crossing.mode = .mediated && !crossing.has "refusal" && !crossing.has "failure" && crossing.has "content_hash" &&
    ((Value.object crossing.members).get "http_status").asU64.any fun status => 200 ≤ status && status < 300

/-- What is recorded of a crossing, `handle` and `crossingId` being fresh. -/
def Crossing.payload (crossing : Crossing J) (observes : Bool) (handle crossingId : String)
    (hostCall policyIdentity : Option String) : List (String × Value) :=
  let members := crossing.members
  let members :=
    if observes && crossing.mode = .mediated && !crossing.has "failure" && crossing.has "http_status" then
      setMember (setMember members "context_observation" (.string "host_required")) "grounded" (.bool false)
    else members
  let members :=
    if observes && crossing.acquired then
      let members := setMember members "acquisition_id" (.string handle)
      let members := setMember members "crossing_id" (.string crossingId)
      let members := setMember members "observer" (.string "cm")
      let members := setMember members "grade" (.string "mediated")
      match hostCall with
      | some hostCall => setMember members "host_call_id" (.string hostCall)
      | none => members
    else members
  match crossing.mode, policyIdentity with
  | .mediated, some identity => setMember members "policy_identity" (.string identity)
  | _, _ => members

end

structure Served (canonicalUuid : String → Bool) where
  log : State Unit
  journals : List Bytes
  observes : Bool
  policyIdentity : Option String
  validation : Option (Index canonicalUuid)

inductive Failure where
  | invalid (reason : String)
  | unavailable

structure Request (Uuid : Type) where
  event : HostEvent Uuid
  host : String
  cwd : Option String
  now : Stamp
  /-- The log's file is not there, where nothing has been written to it. -/
  absent : Bool
  opened : Option (Nat × Nat)
  order : Order
  wrote : Wrote
  first : Attempt
  second : Attempt

inductive Admitted where
  | started
  | one (event : String) (members : List (String × Value))
  | output (members : List (String × Value)) (generation : String) (recorded : Bool)

structure Config (Uuid : Type) where
  J : Reader
  digest : Bytes → String
  ids : UuidText Uuid
  parseUrl : String → Option Url
  sessionId : String

section

variable {Uuid : Type} (config : Config Uuid)

def Config.canonicalUuid (value : String) : Bool := (config.ids.parse value).map config.ids.text = some value

def Served.catchUp (served : Served config.canonicalUuid) (request : Request Uuid) :
    Index config.canonicalUuid × List Bytes × Bool :=
  let index := served.validation.getD (Index.load config.J config.digest (journalRead served.journals request.opened))
  if request.absent = true ∧ served.log.file = [] then (Index.reset config.digest, served.journals, !served.observes)
  else
    match index.catchUp config.J config.digest served.log.file .never request.order with
    | (index, some entry, outcome) =>
      let written := writeJournal index.rewrite entry request.wrote served.journals
      ({ index with rewrite := !written.2 }, written.1, outcome.toBool)
    | (index, none, outcome) => (index, served.journals, outcome.toBool)

def contextEntered (index : Index config.canonicalUuid) (base : List (String × Value)) (acquisitionId generationId : Uuid)
    (representationHash : String) : Except Failure Admitted :=
  let acquisition := config.ids.text acquisitionId
  let generation := config.ids.text generationId
  if !validHash representationHash then .error (.invalid "representation_hash must be SHA-256")
  else if !index.admitted acquisition then .error (.invalid "unknown acquisition handle in this session")
  else if index.deliveredFile acquisition && !index.admittedWith acquisition representationHash then
    .error (.invalid ("a delivered file's representation_hash must be its content_hash, the SHA-256 of the bytes " ++
      "handed over"))
  else if index.enteredAs acquisition generation representationHash then
    .error (.invalid "duplicate context-entry observation")
  else if index.generationHasOutput generation then .error (.invalid "generation already completed")
  else .ok (.one "context_entered" (base ++ [("acquisition_id", .string acquisition), ("generation_id", .string generation),
    ("representation_hash", .string representationHash)]))

def outputMembers (base : List (String × Value)) (generation output outputHash : String) (acquisitions : List String) :
    List (String × Value) :=
  base ++ [("generation_id", .string generation), ("output_id", .string output), ("output_hash", .string outputHash),
    ("acquisition_ids", .array (acquisitions.map .string))]

def isTexts (value : Value) (texts : List String) : Bool :=
  match value with
  | .array items => items.map Value.asStr = texts.map some
  | _ => false

def identical (original : Value) (generation output outputHash : String) (acquisitions : List String) (host : String) :
    Bool :=
  isText (original.get "generation_id") generation && isText (original.get "output_id") output &&
    isText (original.get "output_hash") outputHash && isTexts (original.get "acquisition_ids") acquisitions &&
    isText (original.get "host") host

def outputAssociated (index : Index config.canonicalUuid) (log : Bytes) (base : List (String × Value)) (host : String)
    (generationId outputId : Uuid) (outputHash : String) (acquisitionIds : List Uuid) :
    Index config.canonicalUuid × Except Failure Admitted :=
  let generation := config.ids.text generationId
  let output := config.ids.text outputId
  let acquisitions := acquisitionIds.map config.ids.text
  if !validHash outputHash || 1024 < acquisitionIds.length then
    (index, .error (.invalid "output requires SHA-256 and at most 1024 associations"))
  else
    match index.firstOutput config.J config.digest log generation output with
    | (index, .error _) => (index, .error .unavailable)
    | (index, .ok none) =>
      (index, .ok (.output (outputMembers base generation output outputHash acquisitions) generation false))
    | (index, .ok (some original)) =>
      if !identical original generation output outputHash acquisitions host || index.completed generation then
        (index, .error (.invalid "duplicate output or completed generation"))
      else (index, .ok (.output (membersOf original) generation true))

def actionDecided (index : Index config.canonicalUuid) (base : List (String × Value))
    (actionId generationId acquisitionId : Uuid) (decision : ActionDecision) (ruleId : String) (target : ActionTarget)
    (dataHash hostPolicyHash : String) : Except Failure Admitted :=
  let action := config.ids.text actionId
  let generation := config.ids.text generationId
  let acquisition := config.ids.text acquisitionId
  if (config.parseUrl target.url).isNone then .error (.invalid "action target requires an absolute HTTP(S) URL")
  else if !target.valid config.parseUrl || !validIdentifier ruleId || !validHash dataHash || !validHash hostPolicyHash then
    .error (.invalid "invalid action target, rule identifier or hash")
  else if !index.admittedWith acquisition dataHash || !index.entered acquisition generation then
    .error (.invalid "action requires matching acquisition bytes and context entry")
  else if index.actionRecorded action then .error (.invalid "duplicate action decision")
  else .ok (.one "action_decided" (base ++ [("action_id", .string action), ("generation_id", .string generation),
    ("acquisition_id", .string acquisition), ("action", .string "send_acquired_text"),
    ("decision", .string decision.text), ("rule_id", .string ruleId),
    ("target", .object [("url", .string target.url), ("recipient", .string target.recipient)]),
    ("data_hash", .string dataHash), ("host_policy_hash", .string hostPolicyHash)]))

def Served.validate (served : Served config.canonicalUuid) (index : Index config.canonicalUuid) (request : Request Uuid) :
    Index config.canonicalUuid × Except Failure Admitted :=
  let base := observationBase config.sessionId request.host request.now "observed"
  match request.event, served.observes with
  | .observationsStarted, observes =>
    if observes || index.crossingRecorded then
      (index, .error (.invalid "enable host observations once, before any mediated crossing"))
    else (index, .ok .started)
  | _, false => (index, .error (.invalid "host observations have not been enabled"))
  | .contextEntered acquisitionId generationId representationHash, true =>
    (index, contextEntered config index base acquisitionId generationId representationHash)
  | .outputAssociated generationId outputId outputHash acquisitionIds, true =>
    outputAssociated config index served.log.file base request.host generationId outputId outputHash acquisitionIds
  | .actionDecided actionId generationId acquisitionId decision ruleId target dataHash hostPolicyHash, true =>
    (index, actionDecided config index base actionId generationId acquisitionId decision ruleId target dataHash hostPolicyHash)
  | .observationUnavailable observation, true =>
    (index, .ok (.one "observation_unavailable" (observationBase config.sessionId request.host request.now "unavailable" ++
      [("observation", .string observation.text), ("reason", .string observation.reason)])))

def Served.perform (served : Served config.canonicalUuid) (request : Request Uuid) :
    Admitted → Served config.canonicalUuid × Bool
  | .started =>
    let (log, done) := logAppend served.log "observations_started"
      (observationBase config.sessionId request.host request.now "observed") request.first
    ({ served with log, observes := served.observes || done }, done)
  | .one event members =>
    let (log, done) := logAppend served.log event members request.first
    ({ served with log }, done)
  | .output members generation recorded =>
    let (log, done) := if recorded then (served.log, true) else logAppend served.log "output_associated" members request.first
    if done then
      let (log, done) := logAppend log "turn_completed" (boundary members generation request.cwd served.policyIdentity)
        request.second
      ({ served with log }, done)
    else ({ served with log }, false)

def recordHostObservation (served : Served config.canonicalUuid) (request : Request Uuid) :
    Served config.canonicalUuid × Except Failure Unit :=
  match served.catchUp config request with
  | (index, journals, false) => ({ served with journals, validation := some index }, .error .unavailable)
  | (index, journals, true) =>
    match served.validate config index request with
    | (index, .error failure) => ({ served with journals, validation := some index }, .error failure)
    | (index, .ok admitted) =>
      let (served, done) := { served with journals, validation := some index }.perform config request admitted
      (served, if done then .ok () else .error .unavailable)

/-- What happens to a session: a process opens its log, the one before having stopped, records a crossing, or answers a
host's request. -/
inductive Happening where
  | opens (policyIdentity : Option String)
  | crosses (crossing : Crossing config.J) (handle crossingId : Uuid) (hostCall : Option String) (attempt : Attempt)
  | observes (request : Request Uuid)

def Served.created : Served config.canonicalUuid := ⟨State.created Unit, [], false, none, none⟩

def Served.step (served : Served config.canonicalUuid) : Happening config → Served config.canonicalUuid
  | .opens policyIdentity =>
    { served with
      log := { served.log with writers := fun _ => .opened }
      observes := optedIn config.J served.log.file
      policyIdentity
      validation := none }
  | .crosses crossing handle crossingId hostCall attempt =>
    let members := crossing.payload served.observes (config.ids.text handle) (config.ids.text crossingId) hostCall
      served.policyIdentity
    { served with log := (logAppend served.log crossing.event members attempt).1 }
  | .observes request => (recordHostObservation config served request).1

end

end CommonMeasure.Observation
