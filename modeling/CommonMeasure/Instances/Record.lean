import CommonMeasure.Json.Members
import CommonMeasure.Json.Parse

namespace CommonMeasure.Instances

open Json

def RECORD_VERSION : Nat := 1

def BINDING_REJECTED : String := "binding_rejected"

def asBool : Value → Option Bool
  | .bool b => some b
  | _ => none

/-- `Value::as_i64`. -/
def asI64 : Value → Option Int
  | .number n =>
    match n.text with
    | 45 :: digits =>
      if digits.all isDigit ∧ digitsValue digits ≠ 0 ∧ digitsValue digits ≤ 2 ^ 63 then some (-(digitsValue digits : Int))
      else none
    | digits => if digits.all isDigit ∧ digitsValue digits < 2 ^ 63 then some (digitsValue digits) else none
  | _ => none

def itemsOf : Value → List Value
  | .array items => items
  | _ => []

structure Work where
  kind : String
  namespace_ : String
  id : String
  deriving DecidableEq

structure Operation where
  at_ : String
  operation : String
  idempotency_key : String
  outcome : String
  http_status : Option Nat
  reason : Option String
  request : Option String
  revision : Option Int
  hub_time : Option String
  deriving DecidableEq

structure Retained where
  version : Nat
  hub : String
  issuer : String
  instance_ : String
  revision : Int
  status : String
  work : List Work
  session_id : Option String
  session_taken_from : Option String
  valid_from : String
  expires_at : String
  next_check : String
  online_validation_required : Bool
  registration : Value
  accepted : Value
  rejected : Option Value
  closure : Option Value
  duties : Option Value
  operations : List Operation

structure Answer where
  status : Nat
  body : Value

namespace Answer

def reason (answer : Answer) : String := ((answer.body.get "reason").asStr).getD ("http_" ++ toString answer.status)

def signature_not_accepted (answer : Answer) : Bool :=
  answer.status = 401 && (answer.body.get "reason").asStr.any fun reason =>
    reason ∈ ["invalid_registration_signature", "registration_signature_required", "nonce_reused"]

def refusal_outcome (answer : Answer) : String :=
  if answer.status = 503 || answer.signature_not_accepted then "unavailable" else "refused"

def hub_time (answer : Answer) : Option String :=
  if answer.signature_not_accepted then (answer.body.get "server_time").asStr else none

end Answer

def newOperation (name idempotency_key at_ : String) : Operation :=
  { at_, operation := name, idempotency_key, outcome := "", http_status := none, reason := none, request := none,
    revision := none, hub_time := none }

def settle (operation : Operation) (sent : Except String Answer) (success : Nat) : Operation × Bool :=
  match sent with
  | .error reason => ({ operation with outcome := "unreachable", reason := some reason }, false)
  | .ok answer =>
    let operation :=
      { operation with http_status := some answer.status, request := (answer.body.get "request").asStr }
    let replayed : Bool := asBool (answer.body.get "replayed") = some true
    if answer.status = success || (answer.status = 200 && replayed) then
      ({ operation with outcome := if replayed then "replayed" else "accepted" }, true)
    else
      ({ operation with
          outcome := answer.refusal_outcome
          reason := some answer.reason
          hub_time := answer.hub_time }, false)

def accepted (operation : Operation) : Bool := operation.outcome = "accepted" || operation.outcome = "replayed"

def SESSION_ID_MAX : Nat := 128

def isPlain (c : Char) : Bool := c.isAlphanum || c = '-' || c = '_' || c = '.'

def safe_session (raw : String) : Bool :=
  raw.toList.all isPlain && raw ≠ "" && raw.length ≤ SESSION_ID_MAX && raw.toList.head? ≠ some '.'

def safe_instance (named : String) : Except String String :=
  if safe_session named then .ok named else .error ("instance identifier " ++ named ++ " is not a plain name")

def okOr {α : Type} (reason : String) : Option α → Except String α
  | some value => .ok value
  | none => .error reason

def answered_duties (answer : Value) : Option Value :=
  match answer.get "duties" with
  | .array (duty :: duties) => some (.array (duty :: duties))
  | _ => none

def withoutEnvelope (registration : Value) : Value :=
  .object (setMember (membersOf registration) "policy"
    (match registration.get "policy" with
    | .object policy => .object (swapRemove "envelope" policy)
    | other => other))

namespace Retained

def from_accepted (hub : String) (registration : Value) (work : List Work) (session_id : Option String) (answer : Value) :
    Except String Retained := do
  let accepted := answer.get "accepted"
  let binding := accepted.get "binding"
  let text (field : String) := okOr ("the accepted binding has no " ++ field) (binding.get field).asStr
  let issuer ← text "issuer"
  let instance_ ← text "instance"
  let revision ← okOr "the accepted binding has no revision" (asI64 (binding.get "revision"))
  let valid_from ← text "valid_from"
  let expires_at ← text "expires_at"
  let next_check ← text "next_check"
  .ok {
    version := RECORD_VERSION
    hub
    issuer
    instance_
    revision
    status := (((answer.get "current").get "status").asStr).getD "active"
    work
    session_id
    session_taken_from := none
    valid_from
    expires_at
    next_check
    online_validation_required := (asBool (binding.get "online_validation_required")).getD true
    registration := withoutEnvelope registration
    accepted
    rejected := none
    closure := none
    duties := answered_duties (answer.get "current")
    operations := [] }

def ofRejected (hub : String) (registration : Value) (work : List Work) (answer : Value) : Except String Retained := do
  let binding := (answer.get "accepted").get "binding"
  let member (field : String) : Value :=
    match answer.get field with
    | .null => binding.get field
    | stated => stated
  let text (field : String) : String := ((binding.get field).asStr).getD ""
  let named ← okOr "the hub's answer names no instance" (member "instance").asStr
  let instance_ ← safe_instance named
  let revision ← okOr "the hub's answer names no revision" (asI64 (member "revision"))
  .ok {
    version := RECORD_VERSION
    hub
    issuer := text "issuer"
    instance_
    revision
    status := BINDING_REJECTED
    work
    session_id := none
    session_taken_from := none
    valid_from := text "valid_from"
    expires_at := text "expires_at"
    next_check := text "next_check"
    online_validation_required := true
    registration := withoutEnvelope registration
    accepted := answer.get "accepted"
    rejected := none
    closure := none
    duties := none
    operations := [] }

def duties_at_closure (held : Retained) : List Value :=
  let named := itemsOf (held.registration.get "duties")
  if held.status ≠ BINDING_REJECTED then named
  else
    let current := held.rejected.getD held.accepted
    let restated := itemsOf (((current.get "binding").get "registration").get "duties")
    named.filter fun duty => restated.any fun other => write other = write duty

def apply_duties (held : Retained) (answer : Value) : Retained :=
  match answer.get "duties" with
  | .array _ => { held with duties := answered_duties answer }
  | _ => held

def apply_standing (held : Retained) (standing : Value) : Retained :=
  if (asI64 (standing.get "revision")).any fun revision => revision < held.revision then held
  else
    let status :=
      match (standing.get "status").asStr with
      | some status => if held.status = BINDING_REJECTED ∧ status = "active" then held.status else status
      | none => held.status
    { held with
      status
      revision := (asI64 (standing.get "revision")).getD held.revision
      expires_at := ((standing.get "expires_at").asStr).getD held.expires_at
      next_check := ((standing.get "next_check").asStr).getD held.next_check
      online_validation_required :=
        (asBool (standing.get "online_validation_required")).getD held.online_validation_required }.apply_duties standing

end Retained

end CommonMeasure.Instances
