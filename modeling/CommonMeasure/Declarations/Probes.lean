import CommonMeasure.Declarations.Robots
import CommonMeasure.Foundation.Lines

/-!
# Probes of a source's declarations

One request for a `robots.txt` or a licence, what it is remembered as, and when what is remembered is used again.
-/

namespace CommonMeasure.Declarations

def seconds (n : Int) : Int := n * 1000000000

def ROBOTS_CACHE_AGE : Int := seconds 86400

def FAILURE_CACHE_AGE : Int := seconds 300

def MAX_PROBE_BODY : Nat := 512 * 1024

structure Truncated where
  size : Nat
  read : Nat
deriving DecidableEq

structure Probe where
  url : Text
  fetched_at : Int
  expires_at : Int
  final_url : Option Text
  status : Option Nat
  body : Option Text
  truncated : Option Truncated
  error : Option Text
  not_sent : Bool
  declined_redirect : Option Text
  cut_short : Bool
  refused_by : Option Text
deriving DecidableEq

def robots_status_is_no_rules (status : Nat) : Bool := 400 ≤ status ∧ status < 500 ∧ status ≠ 429

def is_success (status : Nat) : Bool := 200 ≤ status ∧ status < 300

def licence_is_missing (status : Nat) : Bool := status = 404 ∨ status = 410

namespace Probe

variable (probe : Probe)

def answered : Bool := probe.body.isSome || probe.status.any robots_status_is_no_rules

def unreachable : Bool :=
  match probe.status with
  | some status => !is_success status && !robots_status_is_no_rules status
  | none => !probe.not_sent && !probe.cut_short && probe.error.isSome

/-- A shape this build keeps for `robots.txt` and reuses. -/
def reusable_as_robots : Bool :=
  if probe.not_sent then false
  else if probe.cut_short || probe.refused_by.isSome then false
  else
    let failure := probe.body.isNone && probe.truncated.isNone && probe.error.isSome
    match probe.status with
    | some status =>
      if is_success status then
        probe.body.isSome && probe.error.isNone && probe.final_url.isSome && probe.declined_redirect.isNone
      else if robots_status_is_no_rules status then
        probe.body.isNone && probe.truncated.isNone && probe.error.isNone && probe.final_url.isSome &&
          probe.declined_redirect.isNone
      else failure && probe.final_url.isSome && probe.declined_redirect.isNone
    | none => failure && probe.final_url.isNone

end Probe

structure Response where
  status : Nat
  body : Bytes
  cache_control : Option Text

inductive ProbeFailure where
  | unreachable (reason : Text)
  | not_sent (reason : Text)
  | backoff (reason : Text)
  | redirect_declined (target reason : Text)
  | cut_short (reason : Text) (sent : Bool)
  | robots_refused (url reason : Text) (expires_at : Int)

namespace ProbeFailure

def reason : ProbeFailure → Text
  | unreachable reason => reason
  | not_sent reason => reason
  | backoff reason => reason
  | redirect_declined _ reason => reason
  | cut_short reason _ => reason
  | robots_refused _ reason _ => reason

def sent : ProbeFailure → Bool
  | not_sent _ => false
  | backoff _ => false
  | cut_short _ sent => sent
  | unreachable _ => true
  | redirect_declined _ _ => true
  | robots_refused _ _ _ => true

def own : ProbeFailure → Bool
  | cut_short _ _ => true
  | backoff _ => true
  | _ => false

def target : ProbeFailure → Option Text
  | redirect_declined target _ => some target
  | robots_refused url _ _ => some url
  | _ => none

def expires_at (failure : ProbeFailure) (now : Int) : Int :=
  match failure with
  | cut_short _ _ => now
  | backoff _ => now
  | robots_refused _ _ expires_at => expires_at
  | _ => now + FAILURE_CACHE_AGE

def refused_by : ProbeFailure → Option Text
  | robots_refused _ _ _ => some "robots.txt".toList
  | _ => none

end ProbeFailure

abbrev Answer := Except ProbeFailure (Text × Response)

inductive ProbeKind where
  | robots
  | licence
deriving DecidableEq

def parse_u64 (text : Text) : Option Nat :=
  let digits := match text with
    | '+' :: digits => digits
    | digits => digits
  if digits = [] ∨ digits.any (!·.isDigit) then none
  else
    let value := digits.foldl (fun value c => 10 * value + (c.toNat - 48)) 0
    if value < 2 ^ 64 then some value else none

def trim_quotes (text : Text) : Text := (text.dropWhile (· = '"')).rdropWhile (· = '"')

def directive (text : Text) : Option (Text × Text) :=
  let directive := trim text
  if '=' ∈ directive then some (directive.takeWhile (· ≠ '='), (directive.dropWhile (· ≠ '=')).drop 1) else none

def max_age (cache_control : Option Text) : Option Nat := do
  let value ← ((← cache_control).splitOn ',').filterMap directive |>.find? fun entry =>
    to_ascii_lowercase (trim entry.1) = "max-age".toList
  parse_u64 (trim_quotes (trim value.2))

/-- The greatest number of seconds a duration of `chrono` holds. -/
def MAX_DURATION_SECONDS : Nat := (2 ^ 63 - 1) / 1000

def answer_age (cache_control : Option Text) : Option Int :=
  match max_age cache_control with
  | none => some ROBOTS_CACHE_AGE
  | some age =>
    if min age (2 ^ 63 - 1) ≤ MAX_DURATION_SECONDS then some (min (seconds (min age (2 ^ 63 - 1) : Nat)) ROBOTS_CACHE_AGE) else none

theorem answer_age_le {cache_control : Option Text} {age : Int} (aged : answer_age cache_control = some age) :
    age ≤ ROBOTS_CACHE_AGE := by
  unfold answer_age at aged
  split at aged
  · cases aged
    exact Int.le_refl _
  · split at aged
    · cases aged
      exact Int.min_le_right _ _
    · cases aged

def line_break (byte : UInt8) : Bool := byte = 10 ∨ byte = 13

def within_parsing_limit (body : Bytes) : Bytes :=
  let head := body.take MAX_PROBE_BODY
  if (body[MAX_PROBE_BODY]?).all line_break then head else head.rdropWhile (!line_break ·)

def answered_with (url : Text) (status : Nat) : Text := url ++ " answered ".toList ++ (toString status).toList

def too_large (size : Nat) : Text :=
  ("the body is " ++ toString size ++ " bytes, over the " ++ toString MAX_PROBE_BODY ++ " byte bound this reader keeps").toList

/-- The body, what of it was read and why there is none. `lossy` is `String::from_utf8_lossy`. -/
def read_body (lossy : Bytes → Text) (kind : ProbeKind) (response : Response) :
    Option Text × Option Truncated × Option Text :=
  if !is_success response.status then (none, none, none)
  else if response.body.length ≤ MAX_PROBE_BODY then (some (lossy response.body), none, none)
  else match kind with
    | .robots =>
      let read := within_parsing_limit response.body
      (some (lossy read), some { size := response.body.length, read := read.length }, none)
    | .licence => (none, none, some (too_large response.body.length))

def answered_probe (url : Text) (now expires_at : Int) (final_url : Text) (status : Nat)
    (read : Option Text × Option Truncated × Option Text) : Probe :=
  { url, fetched_at := now, expires_at, final_url := some final_url, status := some status, body := read.1,
    truncated := read.2.1,
    error := read.2.2, not_sent := false, declined_redirect := none, cut_short := false, refused_by := none }

def failed_probe (url : Text) (now : Int) (failure : ProbeFailure) : Probe :=
  { url, fetched_at := now, expires_at := failure.expires_at now, final_url := none, status := none, body := none,
    truncated := none, error := some failure.reason, not_sent := !failure.sent, declined_redirect := failure.target,
    cut_short := failure.own, refused_by := failure.refused_by }

def fresh_probe (lossy : Bytes → Text) (url : Text) (now : Int) (kind : ProbeKind) : Answer → Option Probe
  | .ok (final_url, response) =>
    if kind = .licence ∧ licence_is_missing response.status then
      some (answered_probe url now (now + FAILURE_CACHE_AGE) final_url response.status (none, none, none))
    else if !is_success response.status ∧ !(kind = .robots && robots_status_is_no_rules response.status) then
      some (answered_probe url now (now + FAILURE_CACHE_AGE) final_url response.status
        (none, none, some (answered_with url response.status)))
    else do
      let age ← answer_age response.cache_control
      return answered_probe url now (now + age) final_url response.status (read_body lossy kind response)
  | .error failure => some (failed_probe url now failure)

inductive CacheDecision where
  | fetched
  | reused
  | not_asked
deriving DecidableEq

def live (slot : Option Probe) (url : Text) (now : Int) (kind : ProbeKind) : Option Probe :=
  slot.filter fun probe => probe.url = url && now < probe.expires_at && (kind ≠ .robots || probe.reusable_as_robots)

def Probe.decision (fresh : Probe) : CacheDecision := if fresh.not_sent then .not_asked else .fetched

def Probe.kept (fresh : Probe) : Option Probe := if fresh.cut_short then none else some fresh

end CommonMeasure.Declarations
