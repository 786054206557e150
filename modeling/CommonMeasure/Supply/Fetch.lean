import CommonMeasure.Foundation.Runs
import CommonMeasure.Json.Pretty
import CommonMeasure.Supply.Released

namespace CommonMeasure.Supply

open Json

def REASON_LIMIT : Nat := 200

def NO_USABLE_ANSWER : String :=
  "the hub gave no usable answer: it was not reached, did not answer within the request budget, or its answer was " ++
    "not a well-formed HTTP response"

def FAULTS : List String :=
  ["signature_invalid", "signature_expired", "window_too_long", "authority_mismatch", "components_missing",
    "nonce_missing", "nonce_repeated"]

def RETRY_FLOOR_DIVISOR : Nat := 4

def worth_retrying (budget elapsed : Nat) : Bool :=
  let remaining := budget - elapsed
  remaining ≠ 0 && budget / RETRY_FLOOR_DIVISOR ≤ remaining

inductive Outcome where
  | accepted | unchanged | unreachable | refused
  deriving DecidableEq

def Outcome.as_str : Outcome → String
  | .accepted => "accepted"
  | .unchanged => "unchanged"
  | .unreachable => "unreachable"
  | .refused => "refused"

structure Held where
  connection_id : String
  provider : String
  variable_ : String
  rotated_at : Option String
  fetched_at : String
  deriving DecidableEq

structure Ignored where
  connection_id : String
  provider : String
  reason : String
  deriving DecidableEq

structure Fetch where
  version : Nat
  fetched : String
  url : String
  outcome : Outcome
  http_status : Option Nat
  reason : Option String
  retried_after : Option String
  served_at : Option String
  held : List Held
  ignored : List Ignored
  expired : List Held
  max_age_seconds : Option Nat
  deriving DecidableEq

def namesOf (held : List Held) : String :=
  ", ".intercalate (held.map fun held => held.provider ++ " (" ++ held.connection_id ++ ")")

def Fetch.journal_line (fetch : Fetch) : String :=
  let held := if fetch.held = [] then "none held" else "holding " ++ namesOf fetch.held
  let status := (fetch.http_status.map fun status => " " ++ toString status).getD ""
  let reason := (fetch.reason.map fun reason => ": " ++ reason).getD ""
  let retried := (fetch.retried_after.map fun code => " (signed again after 401 " ++ code ++ ")").getD ""
  let ignored :=
    if fetch.ignored = [] then "" else "; " ++ toString fetch.ignored.length ++ " served entries not held"
  let expired :=
    if fetch.expired = [] then ""
    else "; no longer using " ++ namesOf fetch.expired ++ ", not confirmed by the hub for " ++
      (fetch.max_age_seconds.map fun age => toString age ++ "s").getD "its maximum age"
  "supplier credentials " ++ fetch.outcome.as_str ++ status ++ reason ++ retried ++ "; " ++ held ++ ignored ++ expired

structure ServedCredential where
  connection_id : String
  provider : String
  variable_ : String
  value : String
  rotated_at : Option String
  deriving DecidableEq

structure ReleaseDocument where
  organisation : String
  key_id : String
  served_at : String
  credentials : List ServedCredential
  deriving DecidableEq

def ServedCredential.ofValue : Value → Option ServedCredential
  | .object members => do
    let connection_id ← text members "connection_id"
    let provider ← text members "provider"
    let variable_ ← text members "variable"
    let value ← text members "value"
    let rotated_at ← optionalText members "rotated_at"
    some { connection_id, provider, variable_, value, rotated_at }
  | _ => none

def ReleaseDocument.ofValue : Value → Option ReleaseDocument
  | .object members => do
    let organisation ← text members "organisation"
    let key_id ← text members "key_id"
    let served_at ← text members "served_at"
    match ← field members "credentials" with
    | .array items =>
      let credentials ← items.mapM ServedCredential.ofValue
      some { organisation, key_id, served_at, credentials }
    | _ => none
  | _ => none

def ReleaseDocument.from_slice (body : Bytes) : Option ReleaseDocument :=
  (readDocument recursionLimit body).bind ReleaseDocument.ofValue

/-- `char::is_control`. -/
def isControl (c : Char) : Bool := c.toNat < 32 || (127 ≤ c.toNat && c.toNat ≤ 159)

def bounded (reason : String) : String :=
  String.ofList ((reason.toList.filter fun c => !isControl c).take REASON_LIMIT)

def stable_field (body : Bytes) (fields : List String) : Option String :=
  (readDocument recursionLimit body).bind fun body =>
    (fields.filterMap fun field => (body.get field).asStr.map bounded).find? fun value => value ≠ ""

def fault_code (body : Bytes) : Option String :=
  ((readDocument recursionLimit body).bind fun body => (body.get "code").asStr).filter fun code => code ∈ FAULTS

def refusal_reason (status : Nat) (body : Bytes) : String :=
  (stable_field body ["code", "reason", "detail"]).getD ("http_" ++ toString status)

structure Enrolment where
  hub : String
  organization : String
  key_id : String
  deriving DecidableEq

inductive Identity where
  | signing
  | unsigned (reason : String)
  deriving DecidableEq

structure Response where
  status : Nat
  body : Bytes
  deriving DecidableEq

structure Pass where
  signed : Except String Unit
  response : Option Response
  /-- The budget's clock where the answer is a fault. -/
  answered : Nat

structure Occasion where
  enrolment : Except String (Option Enrolment)
  /-- The policy URL of a managed deployment. -/
  deployment : Except String (Option String)
  identity : Except String Identity
  now : String
  budget : Nat
  resolved : Bool
  started : Nat
  passes : Nat → Pass
  /-- The store's clock where the answer is applied: for the set before it, and for the set after it. -/
  checked : Nat
  confirmed : Nat
  /-- The store's clock where the record is concluded. -/
  named : Nat
  later : Nat
  written : Except String Unit

structure Urls where
  hub_url_accepted : String → Except String Unit
  release_url : String → Except String String

inductive Ended where
  | stopped (status : Option Nat) (reason : String)
  | answered (response : Response)

structure Asked where
  sent : Nat
  answers : List Response
  retried_after : Option String
  ended : Ended

def faultOf (response : Response) : Option String := if response.status = 401 then fault_code response.body else none

/-- The request loop, from its pass `n`. -/
def ask (w : Occasion) (retried_after : Option String) (n : Nat) : Asked :=
  match (w.passes n).signed with
  | .error reason => ⟨0, [], retried_after, .stopped none ("the request could not be signed: " ++ reason)⟩
  | .ok () =>
    match (w.passes n).response with
    | none => ⟨1, [], retried_after, .stopped none NO_USABLE_ANSWER⟩
    | some response =>
      match faultOf response with
      | none => ⟨1, [response], retried_after, .answered response⟩
      | some code =>
        if first : retried_after.isNone ∧ worth_retrying w.budget ((w.passes n).answered - w.started) then
          let again := ask w (some code) (n + 1)
          ⟨again.sent + 1, response :: again.answers, again.retried_after, again.ended⟩
        else ⟨1, [response], retried_after, .stopped (some 401) code⟩
termination_by retried_after.isNone.toNat
decreasing_by simp [first.1]

def holdServed (fetched_at : String) : List String → List ServedCredential → List Released × List Ignored
  | _, [] => ([], [])
  | providers, served :: rest =>
    let ignored (reason : String) : Ignored :=
      { connection_id := bounded served.connection_id, provider := bounded served.provider, reason }
    if served.provider ∈ providers then
      let others := holdServed fetched_at providers rest
      (others.1, ignored "a second connection for a provider already served; the contract allows one" :: others.2)
    else
      match Released.new served.connection_id served.provider served.variable_ served.value
          (served.rotated_at.map bounded) fetched_at with
      | some credential =>
        let others := holdServed fetched_at (served.provider :: providers) rest
        (credential :: others.1, others.2)
      | none =>
        let others := holdServed fetched_at providers rest
        (others.1, ignored "not a remote provider's own variable with a value, so it is not held" :: others.2)

def rule (enrolment : Enrolment) (w : Occasion) (store : ReleasedStore) (fetch : Fetch) :
    Ended → Fetch × ReleasedStore
  | .stopped status reason => ({ fetch with http_status := status, reason := some reason }, store)
  | .answered response =>
    let fetch := { fetch with http_status := some response.status }
    if response.status = 200 then
      match ReleaseDocument.from_slice response.body with
      | none => ({ fetch with reason := some "the hub answered 200 with no release document" }, store)
      | some document =>
        if document.key_id ≠ enrolment.key_id ∨ document.organisation ≠ enrolment.organization then
          ({ fetch with
              reason := some "the hub answered 200 with a release addressed to another key or organisation" }, store)
        else
          let served := holdServed w.now [] document.credentials
          let replaced := store.replace served.1 w.checked w.confirmed
          ({ fetch with
              served_at := some (bounded document.served_at)
              ignored := served.2
              outcome := if replaced.2 then .accepted else .unchanged }, replaced.1)
    else if response.status = 401 then
      ({ fetch with outcome := .refused, reason := some (refusal_reason 401 response.body) },
        (store.clear w.checked w.confirmed).1)
    else ({ fetch with reason := some (refusal_reason response.status response.body) }, store)

structure Done where
  fetch : Fetch
  store : ReleasedStore
  sent : Nat
  answers : List Response

def ReleasedName.held (name : ReleasedName) : Held :=
  { connection_id := name.connection_id, provider := name.provider, variable_ := name.variable_,
    rotated_at := name.rotated_at, fetched_at := name.fetched_at }

def as_secs (duration : Nat) : Nat := duration / 1000000000

def conclude (w : Occasion) (ruled : Fetch × ReleasedStore) (sent : Nat) (answers : List Response) : Done :=
  let expired := (ruled.2.expired w.later).map ReleasedName.held
  { fetch := { ruled.1 with
      held := (ruled.2.names w.named).map ReleasedName.held
      expired
      max_age_seconds := if expired = [] then ruled.1.max_age_seconds else some (as_secs ruled.2.max_age) }
    store := ruled.2
    sent
    answers }

variable (U : Urls) (home : String)

def fetch_with_clock (w : Occasion) (store : ReleasedStore) : Except String Done := do
  let some enrolment ← w.enrolment
    | .error ("this edge is not enrolled with a hub, so no hub releases credentials to it: no enrolment record at " ++
        home ++ "/enrolment.json")
  U.hub_url_accepted enrolment.hub
  let some policy_url ← w.deployment
    | .error ("deployment mode is local: supplier credentials are released to a managed hosted edge only (" ++ home ++
        "/deployment.json)")
  let url ← U.release_url policy_url
  let fetch : Fetch :=
    { version := 1, fetched := w.now, url, outcome := .unreachable, http_status := none, reason := none,
      retried_after := none, served_at := none, held := [], ignored := [], expired := [], max_age_seconds := none }
  match ← w.identity with
  | .unsigned reason =>
    return conclude w ({ fetch with outcome := .refused, reason := some (reason ++ "; no request was made") },
      (store.clear w.checked w.confirmed).1) 0 []
  | .signing =>
    if w.resolved then
      let asked := ask w none 0
      return conclude w (rule enrolment w store { fetch with retried_after := asked.retried_after } asked.ended) asked.sent
        asked.answers
    else return conclude w ({ fetch with reason := some NO_USABLE_ANSWER }, store) 0 []

structure Seen where
  recorded : Option Fetch
  returned : Except String Fetch
  journal : Except String String

def seen (w : Occasion) (store : ReleasedStore) : Seen :=
  match fetch_with_clock U home w store with
  | .error reason => ⟨none, .error reason, .error reason⟩
  | .ok done =>
    match w.written with
    | .error reason => ⟨some done.fetch, .error reason, .error reason⟩
    | .ok () => ⟨some done.fetch, .ok done.fetch, .ok done.fetch.journal_line⟩

def step (store : ReleasedStore) (w : Occasion) : ReleasedStore :=
  match fetch_with_clock U home w store with
  | .error _ => store
  | .ok done => done.store

def Ruled (w : Occasion) (store : ReleasedStore) : Prop :=
  match fetch_with_clock U home w store with
  | .error _ => False
  | .ok done => done.fetch.outcome ≠ .unreachable

end CommonMeasure.Supply
