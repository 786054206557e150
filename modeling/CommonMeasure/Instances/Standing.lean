import CommonMeasure.Instances.Attempt

namespace CommonMeasure.Instances

open Json

inductive Pending where
  | retain (retained : Retained) (operation : Operation)
  | reject (rejected : Retained) (operation : Operation)
  | conclude (operation : Operation) (closure : Option Value) (current : Value)
  | standing (operation : Operation) (standing : Value)

variable (L : Libraries)

def mutationEnds (attempt : Attempt) (job : Job) (taken_from : Option String) (sent : Except String Answer) :
    Option Pending :=
  match attempt.operationOf L job sent, attempt.registration, sent with
  | .ok operation, .ok registration, .ok answer =>
    if accepted operation then
      match Retained.from_accepted job.edge.hub registration attempt.work attempt.session_id answer.body with
      | .ok retained => some (.retain { retained with session_taken_from := taken_from } operation)
      | .error _ => none
    else if operation.outcome = BINDING_REJECTED then
      match Retained.ofRejected job.edge.hub registration attempt.work answer.body with
      | .ok rejected => some (.reject rejected operation)
      | .error _ => none
    else if attempt.operation = "renew" then some (.conclude operation none .null)
    else none
  | .ok operation, _, .error _ => if attempt.operation = "renew" then some (.conclude operation none .null) else none
  | _, _, _ => none

def closureEnds (held : Retained) (key now : String) (sent : Except String Answer) : Pending :=
  let settled := settle (newOperation "close" key now) sent 200
  match sent with
  | .error _ => .conclude { settled.1 with outcome := "closure_unacknowledged" } none .null
  | .ok answer =>
    if accepted settled.1 then
      .conclude { settled.1 with revision := (asI64 (answer.body.get "revision")).or (some held.revision) }
        (some (.object [("outcome", answer.body.get "outcome"), ("closed_at", answer.body.get "closed_at"),
          ("receipt", answer.body.get "receipt")]))
        (answer.body.get "current")
    else .conclude settled.1 none .null

def statusEnds (key now : String) (sent : Except String Answer) : Pending :=
  let settled := settle (newOperation "status" key now) sent 200
  match sent with
  | .ok answer =>
    if settled.2 then .standing { settled.1 with revision := asI64 (answer.body.get "revision") } answer.body
    else .standing settled.1 .null
  | .error _ => .standing settled.1 .null

def checkEnds (self : Retained) (key now : String) (sent : Except String Answer) : Pending :=
  let operation := newOperation "check" key now
  match sent with
  | .error reason => .standing { operation with outcome := "unreachable", reason := some reason } .null
  | .ok answer =>
    let operation := { operation with
      http_status := some answer.status
      request := (answer.body.get "request").asStr }
    if answer.status = 200 then
      let self := self.apply_standing answer.body
      let operation := { operation with revision := some self.revision }
      if self.status = "active" then .standing { operation with outcome := "accepted" } answer.body
      else .standing { operation with outcome := "refused", reason := some ("instance_" ++ self.status) } answer.body
    else if answer.status ∈ [401, 403, 404, 409] ∧ answer.signature_not_accepted = false then
      .standing { operation with outcome := "refused", reason := some answer.reason } .null
    else
      .standing { operation with
        outcome := "unavailable"
        reason := some answer.reason
        hub_time := answer.hub_time } .null

def Retained.concluded (held : Retained) (operation : Operation) : Retained :=
  { held with operations := held.operations ++ [operation] }

def superseded (revision : Int) (record : Option Retained) : Bool := record.any fun prior => revision < prior.revision

def retainInto (retained : Retained) (operation : Operation) : Option Retained → Retained
  | some prior =>
    if retained.revision < prior.revision then prior.concluded { operation with revision := some prior.revision }
    else
      { retained with
          operations := prior.operations
          closure := prior.closure
          session_taken_from := retained.session_taken_from.or prior.session_taken_from }.concluded
        { operation with revision := some retained.revision }
  | none => retained.concluded { operation with revision := some retained.revision }

def rejectInto (rejected : Retained) (operation : Operation) : Option Retained → Retained
  | some prior =>
    if rejected.revision < prior.revision then prior.concluded { operation with revision := some prior.revision }
    else
      { prior with
          status := if prior.status ≠ "closed" then BINDING_REJECTED else prior.status
          revision := rejected.revision
          rejected := some rejected.accepted }.concluded { operation with revision := some rejected.revision }
  | none => rejected.concluded { operation with revision := some rejected.revision }

def closeInto (operation : Operation) (closure : Option Value) (current : Value) (held : Retained) : Retained :=
  ((match closure with
    | some _ => { held with status := "closed", closure }
    | none => held).apply_duties current).concluded operation

def standingInto (operation : Operation) (standing : Value) (held : Retained) : Retained :=
  (held.apply_standing standing).concluded operation

/-- The record of the instance after what is pending, and the operation that concludes, where there is a record to apply
it to. -/
def Pending.applied (instance_ : String) : Pending → Option Retained → Option (Retained × Operation)
  | .retain retained operation, record =>
    if retained.instance_ = instance_ then
      let next := retainInto retained operation record
      some (next, { operation with revision := some next.revision })
    else none
  | .reject rejected operation, record =>
    if rejected.instance_ = instance_ then
      let next := rejectInto rejected operation record
      some (next, { operation with revision := some next.revision })
    else none
  | .conclude operation closure current, record =>
    record.map (fun held => (closeInto operation closure current held, operation))
  | .standing operation stated, record => record.map (fun held => (standingInto operation stated held, operation))

def Pending.rejection : Pending → Option Retained → Option Int → Option Int
  | .retain retained _, record, rejection =>
    if superseded retained.revision record then rejection
    else rejection.filter (fun revision => retained.revision < revision)
  | .reject rejected _, record, rejection =>
    if superseded rejected.revision record then rejection else some rejected.revision
  | .conclude _ _ _, _, rejection => rejection
  | .standing _ _, _, rejection => rejection

structure Hub where
  revision : Int
  status : String

structure World (Pid : Type) where
  record : Option Retained
  pointers : String → Option String
  /-- Whether a write of this record last set the session's pointer. -/
  ours : String → Bool
  /-- How often a write of this record has set a pointer. -/
  pointed : Nat
  /-- What the commands and checks concluded, in turn. -/
  concluded : List Operation
  /-- The revision whose binding was rejected, until one of that or a later revision verified. -/
  rejection : Option Int
  phase : Pid → Option Pending
  hub : Hub

def World.start {Pid : Type} (pointers : String → Option String) (hub : Hub) : World Pid :=
  ⟨none, pointers, fun _ => false, 0, [], none, fun _ => none, hub⟩

inductive Event (Pid : Type) where
  /-- The hub's own doing, by whatever cause. -/
  | hub (next : Hub)
  | mutates (pid : Pid) (attempt : Attempt) (job : Job) (taken_from : Option String) (sent : Except String Answer)
  | closes (pid : Pid) (held : Retained) (key now : String) (sent : Except String Answer)
  | reads (pid : Pid) (key now : String) (sent : Except String Answer)
  | checks (pid : Pid) (self : Retained) (key now : String) (sent : Except String Answer)
  | applies (pid : Pid)
  /-- A write of another instance's record, or a pointer retired. -/
  | points (session : String) (target : Option String)

variable {Pid : Type}

/-- `Retained::write`. -/
def World.write (instance_ : String) (s : World Pid) (r : Retained) : World Pid :=
  match r.session_id.filter safe_session with
  | none => { s with record := some r }
  | some session =>
    if r.status = "closed" then
      { s with
        record := some r
        pointers := if s.pointers session = some instance_ then Function.update s.pointers session none else s.pointers }
    else
      { s with
        record := some r
        pointers := Function.update s.pointers session (some instance_)
        ours := Function.update s.ours session true
        pointed := s.pointed + 1 }

def World.apply (instance_ : String) (s : World Pid) (pending : Pending) : World Pid :=
  match pending.applied instance_ s.record with
  | none => s
  | some (next, operation) =>
    { s.write instance_ next with
      concluded := s.concluded ++ [operation]
      rejection := pending.rejection s.record s.rejection }

def World.waits [DecidableEq Pid] (s : World Pid) (pid : Pid) (pending : Option Pending) : World Pid :=
  { s with phase := Function.update s.phase pid pending }

def happen [DecidableEq Pid] (instance_ : String) (s : World Pid) : Event Pid → World Pid
  | .hub next => { s with hub := next }
  | .mutates pid attempt job taken_from sent => s.waits pid (mutationEnds L attempt job taken_from sent)
  | .closes pid held key now sent => s.waits pid (some (closureEnds held key now sent))
  | .reads pid key now sent => s.waits pid (some (statusEnds key now sent))
  | .checks pid self key now sent => s.waits pid (some (checkEnds self key now sent))
  | .applies pid =>
    match s.phase pid with
    | some pending => (s.apply instance_ pending).waits pid none
    | none => s
  | .points session target =>
    { s with
      pointers := Function.update s.pointers session target
      ours := Function.update s.ours session false }

def Standing (hub : Hub) (sent : Except String Answer) : Prop :=
  ∀ answer, sent = .ok answer → answer.status = 200 →
    asI64 (answer.body.get "revision") = some hub.revision ∧ (answer.body.get "status").asStr = some hub.status

/-- What the hub does and answers: revisions grow, what is closed stays closed, a read answers the standing, a binding
is of no later revision than the hub's and comes with the standing, and a closure is answered once it is closed. -/
def Honest (s : World Pid) : Event Pid → Prop
  | .hub next => s.hub.revision ≤ next.revision ∧ (s.hub.status = "closed" → next.status = "closed")
  | .mutates _ _ job _ sent => ∀ answer, sent = .ok answer → answer.status = 200 ∨ answer.status = job.success →
    (∀ revision, asI64 (((answer.body.get "accepted").get "binding").get "revision") = some revision →
      revision ≤ s.hub.revision) ∧ ((answer.body.get "current").get "status").asStr = some s.hub.status
  | .closes _ _ _ _ sent => ∀ answer, sent = .ok answer → answer.status = 200 → s.hub.status = "closed"
  | .reads _ _ _ sent | .checks _ _ _ _ sent => Standing s.hub sent
  | .applies _ | .points _ _ => True

end CommonMeasure.Instances
