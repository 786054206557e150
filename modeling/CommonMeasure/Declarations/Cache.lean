import CommonMeasure.Admission.Policy
import CommonMeasure.Declarations.Probes

/-!
# The cache of a source's declarations

One record per cache file, and what `robots.txt` says for one URL, read through it.
-/

namespace CommonMeasure.Declarations

open Admission (PolicyMode)

structure HostRecord where
  robots : Option Probe
  robots_held : Option Probe
  licences : Text → Option Probe
  page_licences : Text → Option Text

def HostRecord.default : HostRecord := ⟨none, none, fun _ => none, fun _ => none⟩

section Names

variable {Url : Type} (u : UrlCrate Url)

def host_of (url : Text) : Text := (((u.parse url).bind u.host_str).map trim_end_dots).getD []

def origin_key (url : Text) : Text :=
  let host := host_of u url
  match u.parse url with
  | some parsed =>
    if !(u.scheme parsed = "https".toList && u.port_or_known_default parsed = some 443) then
      host ++ '_' :: u.scheme parsed ++ '_' :: ((u.port_or_known_default parsed).map fun port => (toString port).toList).getD []
    else host
  | none => host

def path_for (key : Text) : Text :=
  (key.map fun c => if c.isAlphanum || c = '.' || c = '-' then c else '_') ++ ".json".toList

def file_of (url : Text) : Text := path_for (origin_key u url)

def same_origin (a b : Text) : Bool :=
  let origin (url : Text) := (u.parse url).map fun parsed => (u.scheme parsed, host_of u url, u.port_or_known_default parsed)
  match origin a, origin b with
  | some a, some b => a = b
  | _, _ => false

def without_trailing_dot (url : Text) : Text :=
  match u.parse url with
  | none => url
  | some parsed =>
    match u.domain parsed with
    | some host =>
      if host.getLast? = some '.' then
        let trimmed := trim_end_dots host
        if trimmed = [] then url
        else match u.set_host parsed trimmed with
          | some trimmed => u.to_string trimmed
          | none => url
      else u.to_string parsed
    | none => u.to_string parsed

def robots_url_of (page_url : Text) : Text :=
  match u.parse (without_trailing_dot u page_url) with
  | some parsed => u.to_string (u.set_fragment (u.set_query (u.set_path parsed "/robots.txt".toList) none) none)
  | none => page_url ++ "/robots.txt".toList

end Names

inductive RobotsRuling where
  | allowed
  | refused
  | carried
  | unreachable
  | cut_short
  | unavailable
deriving DecidableEq

structure HeldCopy where
  fetched_at : Int
  expires_at : Int
  status : Option Nat
  final_url : Option Text
deriving DecidableEq

structure RobotsOutcome where
  requested_url : Text
  url : Text
  final_url : Option Text
  declined_redirect : Option Text
  cache : CacheDecision
  fetched_at : Option Int
  expires_at : Option Int
  status : Option Nat
  unavailable : Option Text
  unreachable : Bool
  cut_short : Bool
  held_copy : Option HeldCopy
  truncated : Option Truncated
  reading : Option RobotsReading
  mode : Option PolicyMode
  outcome : Option RobotsRuling
deriving DecidableEq

namespace RobotsOutcome

def ruling (robots : RobotsOutcome) : RobotsRuling :=
  match robots.reading with
  | none => if robots.unreachable then .unreachable else if robots.cut_short then .cut_short else .unavailable
  | some reading => if reading.crawlable ≠ some false then .allowed else .refused

def rule (robots : RobotsOutcome) (mode : PolicyMode) : RobotsOutcome :=
  { robots with mode := some mode, outcome := some robots.ruling }

def refuses (robots : RobotsOutcome) : Bool :=
  robots.outcome = some .refused || robots.outcome = some .unreachable || robots.outcome = some .cut_short

end RobotsOutcome

def PRODUCT_TOKEN : Text := "CommonMeasureBot".toList

section

variable {Url : Type} (u : UrlCrate Url) (lossy : Bytes → Text)

def read_answer (answer : Probe) (page_url : Text) : RobotsReading :=
  (parse_robots (answer.body.getD [])).read u PRODUCT_TOKEN (request_target u page_url)

def failure_of (robots_url : Text) (probe : Probe) : Text :=
  probe.error.getD (match probe.status with
    | some status => answered_with robots_url status
    | none => "no answer".toList)

structure Probed where
  probe : Probe
  cache : CacheDecision
  slot : Option Probe

def cached_probe (slot : Option Probe) (url : Text) (now : Int) (kind : ProbeKind) (answer : Answer) : Option Probed :=
  match live slot url now kind with
  | some existing => some { probe := existing, cache := .reused, slot }
  | none => do
    let fresh ← fresh_probe lossy url now kind answer
    return { probe := fresh, cache := fresh.decision, slot := fresh.kept }

def held_after (record : HostRecord) (robots_url : Text) (probed : Probed) : Option Probe :=
  if probed.cache = .reused then record.robots_held
  else if probed.probe.answered then none
  else match record.robots.filter fun previous => previous.url = robots_url && previous.answered with
    | some answer => some answer
    | none => record.robots_held

def read_held (held : Option Probe) (page_url robots_url : Text) (probed : Probed) : RobotsOutcome :=
  let ruled := if probed.probe.answered then some probed.probe else held.filter fun held => held.url = robots_url
  { requested_url := page_url
    url := robots_url
    final_url := probed.probe.final_url
    declined_redirect := probed.probe.declined_redirect
    cache := probed.cache
    fetched_at := if probed.cache = .not_asked then none else some probed.probe.fetched_at
    expires_at := if probed.cache = .not_asked then none else some probed.probe.expires_at
    status := probed.probe.status
    unavailable := if probed.probe.answered then none else some (failure_of robots_url probed.probe)
    unreachable := probed.probe.unreachable
    cut_short := probed.probe.cut_short
    held_copy := if probed.probe.answered then none else ruled.map fun held =>
      { fetched_at := held.fetched_at, expires_at := held.expires_at, status := held.status, final_url := held.final_url }
    truncated := ruled.bind (·.truncated)
    reading := ruled.map fun answer => read_answer u answer page_url
    mode := none
    outcome := none }

/-- What `robots.txt` says for a URL, the record it leaves and what was asked for it. -/
structure RobotsIn where
  robots : RobotsOutcome
  record : HostRecord
  probed : Probed

def read_robots_in (record : HostRecord) (url : Text) (now : Int) (answer : Answer) : Option RobotsIn := do
  let robots_url := robots_url_of u url
  let probed ← cached_probe lossy record.robots robots_url now .robots answer
  let held := held_after record robots_url probed
  return { robots := read_held u held url robots_url probed, record := { record with robots := probed.slot, robots_held := held }, probed }

end

end CommonMeasure.Declarations
