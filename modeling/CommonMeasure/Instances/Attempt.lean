import CommonMeasure.Foundation.Runs
import CommonMeasure.Instances.Record
import Mathlib.Logic.Function.Basic

namespace CommonMeasure.Instances

open Json

structure Request where
  delegation : String
  acceptance : String
  host_name : String
  host_version : String
  purpose : String
  work : List Work
  session_id : Option String
  replace_session : Bool
  parent : Option String
  predecessor : Option String
  duties : List String
  expires_at : String

structure Evidence where
  reference : String
  digest : String

structure Edge where
  key_id : String
  origin : String
  hub : String
  organisation : String

structure Attempt where
  version : Nat
  hub : String
  operation : String
  instance_ : Option String
  body : Bytes
  work : List Work
  session_id : Option String
  registered : Option String
  last : Option Operation

inductive Command where
  | register (request : Request)
  | renew (instance_ expires_at : String)
  | close (instance_ outcome : String) (evidence : List Evidence)

namespace Command

def operation : Command → String
  | .register _ => "register"
  | .renew _ _ => "renew"
  | .close _ _ _ => "close"

def instance_ : Command → Option String
  | .register _ => none
  | .renew instance_ _ | .close instance_ _ _ => some instance_

end Command

def isKeyChar (c : Char) : Bool := c.isAlphanum || c = '-' || c = '_'

def idempotency_key_ok (key : String) : Bool :=
  key ≠ "" && (utf8 key).length ≤ 128 && key.toList.all isKeyChar

def Work.toValue (work : Work) : Value :=
  .object [("kind", .string work.kind), ("namespace", .string work.namespace_), ("id", .string work.id)]

def orNull : Option String → Value
  | some s => .string s
  | none => .null

def ofInt (n : Int) : Value :=
  if h : n < 0 ∧ isNumber (45 :: decimal n.natAbs) = true then .number ⟨45 :: decimal n.natAbs, h.2⟩
  else .number (.ofNat n.toNat)

def body_of (request : Request) (policy : Value) : Value :=
  .object [("version", .number (.ofNat 1)), ("delegation", .string request.delegation),
    ("host", .object [("name", .string request.host_name), ("version", .string request.host_version)]),
    ("work", .array (request.work.map Work.toValue)), ("purpose", .string request.purpose),
    ("parent", orNull request.parent), ("predecessor", orNull request.predecessor), ("policy", policy),
    ("expires_at", .string request.expires_at), ("acceptance", .string request.acceptance),
    ("requires_entitlements", .bool false), ("entitlements", .array []), ("limits", .array []),
    ("duties", .array (request.duties.map .string))]

def renewal_body (held : Retained) (expires_at : String) (policy : Value) : Value :=
  .object [("expected_revision", ofInt held.revision),
    ("registration", .object (setMember (setMember (membersOf held.registration) "policy" policy) "expires_at"
      (.string expires_at)))]

def closure_body (held : Retained) (outcome : String) (evidence : List Evidence) : Value :=
  .object [("expected_revision", ofInt held.revision), ("outcome", .string outcome),
    ("evidence", .array (evidence.map fun item =>
      .object [("reference", .string item.reference), ("digest", .string item.digest)])),
    ("outstanding_duties", .array held.duties_at_closure)]

structure Readings where
  edge : Except String Edge
  records : String → Except String (Option Retained)
  pointers : String → Except String (Option String)
  named : ∀ instance_ held, records instance_ = .ok (some held) → held.instance_ = instance_
  /-- Whether a time is later than now. -/
  later : String → Bool
  applied_policy : Except String Value
  now : String

def pathOf (operation : String) : Option String → String
  | none => "/api/v1/instances"
  | some instance_ => "/api/v1/instances/" ++ instance_ ++ ("/" ++ operation)

structure Job where
  key : String
  operation : String
  instance_ : Option String
  edge : Edge
  path : String
  body : Except String Value
  work : List Work
  session_id : Option String
  success : Nat
  now : String
  addressed : path = pathOf operation instance_

def Job.build (job : Job) : Except String Attempt := do
  let body ← job.body
  .ok { version := 1, hub := job.edge.hub, operation := job.operation, instance_ := job.instance_, body := write body,
        work := job.work, session_id := job.session_id, registered := none, last := none }

def occupant (r : Readings) (session registered : Option String) : Except String (Option Retained) :=
  match session with
  | none => .ok none
  | some session => do
    match ← r.pointers session with
    | none => .ok none
    | some pointed =>
      let held ← r.records pointed
      .ok (held.filter fun held => registered ≠ some held.instance_)

def held (r : Readings) (instance_ : String) : Except String { held : Retained // held.instance_ = instance_ } :=
  match h : r.records instance_ with
  | .error reason => .error reason
  | .ok none => .error ("no instance " ++ instance_ ++ " is recorded")
  | .ok (some held) => .ok ⟨held, r.named instance_ held h⟩

def jobOf (r : Readings) (key : String) (kept : Option Attempt) : Command → Except String Job
  | .register request => do
    let edge ← r.edge
    let session := match kept with
      | some kept => kept.session_id
      | none => request.session_id
    let occupied ← occupant r session (kept.bind Attempt.registered)
    match occupied.filter fun held => held.status = "active" && r.later held.expires_at && !request.replace_session with
    | some held =>
      .error ("session " ++ session.getD "" ++ " already points at instance " ++ held.instance_ ++
        ", which is active until " ++ held.expires_at ++ ". Another registration would attribute the session's later " ++
        "records to a new instance and leave that one active at the hub. Close it (`commonmeasure instance close " ++
        held.instance_ ++ " --outcome <outcome>`), or pass --replace-session to register anyway. Nothing was sent.")
    | none =>
      .ok { key, operation := "register", instance_ := none, edge, path := "/api/v1/instances",
            body := r.applied_policy.map (body_of request), work := request.work, session_id := request.session_id,
            success := 201, now := r.now, addressed := rfl }
  | .renew instance_ expires_at => do
    let edge ← r.edge
    let ⟨held, is⟩ ← held r instance_
    .ok { key, operation := "renew", instance_ := some instance_, edge,
          path := "/api/v1/instances/" ++ held.instance_ ++ "/renew",
          body := r.applied_policy.map (renewal_body held expires_at), work := held.work, session_id := held.session_id,
          success := 200, now := r.now, addressed := by rw [is]; rfl }
  | .close instance_ outcome evidence => do
    let edge ← r.edge
    let ⟨held, is⟩ ← held r instance_
    .ok { key, operation := "close", instance_ := some instance_, edge,
          path := "/api/v1/instances/" ++ held.instance_ ++ "/close", body := .ok (closure_body held outcome evidence),
          work := held.work, session_id := held.session_id, success := 200, now := r.now,
          addressed := by rw [is]; rfl }

structure Libraries where
  /-- The check of an accepted binding against the edge and the registration it answers. -/
  verify_accepted : Value → Edge → Value → Except String Unit
  /-- A hub by its origin alone. -/
  at_hub_origin : String → String

def Job.takes (L : Libraries) (job : Job) (kept : Attempt) : Except String Attempt :=
  if kept.operation ≠ job.operation ∨ kept.instance_ ≠ job.instance_ then
    .error ("idempotency key " ++ job.key ++ " was used for " ++ kept.operation ++ " " ++
      kept.instance_.getD "of a new instance" ++ "; choose another key for this operation")
  else if kept.hub ≠ job.edge.hub then
    let was := L.at_hub_origin kept.hub
    let now := L.at_hub_origin job.edge.hub
    .error ("idempotency key " ++ job.key ++ " was used for a request to " ++
      (if was = now then "another URL of the hub" ++ was else "the hub" ++ was) ++
      ", and this edge is now enrolled with the hub" ++ now ++ "; choose another key. Nothing was sent.")
  else .ok kept

def Attempt.registration (attempt : Attempt) : Except String Value :=
  match readDocument recursionLimit attempt.body with
  | none => .error "the body is not JSON"
  | some body => .ok (if attempt.operation = "renew" then body.get "registration" else body)

def Attempt.operationOf (L : Libraries) (attempt : Attempt) (job : Job) (sent : Except String Answer) :
    Except String Operation :=
  let settled := settle (newOperation attempt.operation job.key job.now) sent job.success
  match sent with
  | .ok answer =>
    if settled.2 ∧ attempt.operation ≠ "close" then
      match attempt.registration with
      | .error reason => .error reason
      | .ok registration =>
        match L.verify_accepted (answer.body.get "accepted") job.edge registration with
        | .ok () => .ok settled.1
        | .error reason => .ok { settled.1 with outcome := BINDING_REJECTED, reason := some reason }
    else .ok settled.1
  | .error _ => .ok settled.1

def Attempt.sent (attempt : Attempt) (operation : Operation) (sent : Except String Answer) : Attempt :=
  let named := sent.toOption.bind fun answer => (answer.body.get "instance").asStr
  { attempt with
    registered :=
      if attempt.operation = "register" ∧ (accepted operation ∨ operation.outcome = BINDING_REJECTED) then
        named.or attempt.registered
      else attempt.registered
    last := some operation }

structure Sent where
  key : String
  hub : String
  path : String
  operation : String
  instance_ : Option String
  body : Bytes
  deriving DecidableEq

inductive Phase where
  | idle
  | opening (job : Job)
  | writing (job : Job) (attempt : Attempt)
  | sending (job : Job) (attempt : Attempt)
  | recording (job : Job) (attempt : Attempt)

structure System (Pid : Type) where
  attempts : String → Option Attempt
  phase : Pid → Phase
  sent : List Sent

def System.start {Pid : Type} (attempts : String → Option Attempt) : System Pid := ⟨attempts, fun _ => .idle, []⟩

inductive Act (Pid : Type) where
  | begins (pid : Pid) (key : String) (command : Command) (readings : Readings)
  | looks (pid : Pid)
  | keeps (pid : Pid)
  | sends (pid : Pid) (answer : Except String Answer)
  | records (pid : Pid)
  | stops (pid : Pid)

variable {Pid : Type} [DecidableEq Pid] (L : Libraries)

def System.at_ (s : System Pid) (pid : Pid) (phase : Phase) : System Pid :=
  { s with phase := Function.update s.phase pid phase }

def System.keep (s : System Pid) (key : String) (attempt : Attempt) : System Pid :=
  { s with attempts := Function.update s.attempts key (some attempt) }

def step (s : System Pid) : Act Pid → System Pid
  | .begins pid key command readings =>
    match s.phase pid with
    | .idle =>
      if idempotency_key_ok key then
        match jobOf readings key (s.attempts key) command with
        | .ok job => s.at_ pid (.opening job)
        | .error _ => s
      else s
    | _ => s
  | .looks pid =>
    match s.phase pid with
    | .opening job =>
      match s.attempts job.key with
      | some kept =>
        match job.takes L kept with
        | .ok attempt => s.at_ pid (.sending job attempt)
        | .error _ => s.at_ pid .idle
      | none =>
        match job.build with
        | .ok attempt => s.at_ pid (.writing job attempt)
        | .error _ => s.at_ pid .idle
    | _ => s
  | .keeps pid =>
    match s.phase pid with
    | .writing job attempt => (s.keep job.key attempt).at_ pid (.sending job attempt)
    | _ => s
  | .sends pid answer =>
    match s.phase pid with
    | .sending job attempt =>
      let sent : Sent := ⟨job.key, job.edge.hub, job.path, attempt.operation, job.instance_, attempt.body⟩
      let s := { s with sent := s.sent ++ [sent] }
      match attempt.operationOf L job answer with
      | .ok operation => s.at_ pid (.recording job (attempt.sent operation answer))
      | .error _ => s.at_ pid .idle
    | _ => s
  | .records pid =>
    match s.phase pid with
    | .recording job attempt => (s.keep job.key attempt).at_ pid .idle
    | _ => s
  | .stops pid => s.at_ pid .idle

end CommonMeasure.Instances
