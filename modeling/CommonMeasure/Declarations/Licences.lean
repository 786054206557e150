import CommonMeasure.Declarations.Held
import CommonMeasure.Declarations.Rsl

/-!
# The licences a page is governed by

Every licence `robots.txt` or the response names for a page is read, and one that was not read is entered as unread.
-/

namespace CommonMeasure.Declarations

open Admission (PolicyMode)

inductive Redirects where
  | followed
  | ruled
deriving DecidableEq

structure Pacing (W : Type) where
  /-- The delay read of a host is learned. -/
  learn : Text → RobotsIn → W → W
  delay_for : Text → W → Option Nat
  pending_wait : Text → Int → W → Nat
  spendable_now : W → Nat
  /-- The turn of a probe: the instant it is sent, or why it is not. -/
  probe_reserving : Text → Int → Nat → W → Except Text Int × W
  end_probe : W → W
  backoff_events : W → List Text
  names_the_edge : Bool

structure Edge (W : Type) where
  load : Text → W → HostRecord
  save : Text → HostRecord → W → W
  probe : Text → Redirects → W → Answer × W
  pacing : Option (Pacing W)

structure LicenceReader (Licence Terms Statement : Type) where
  parse_rsl : Text → Except Text (RslDocument Licence)
  licence_terms : RslContent Licence → Text → Terms
  statements : Terms → List Statement
  reason : SelectionUnread → Text

inductive LicenceMechanism where
  | robots_license
  | link_header
deriving DecidableEq

/-- `missing` is the text of a gap that evidence is missing. -/
structure LicenceOutcome (Terms : Type) where
  url : Text
  url_rendered : Bool
  mechanism : LicenceMechanism
  cache : CacheDecision
  status : Option Nat
  unavailable : Option Text
  content : Option Text
  terms : Option Terms
  unread : Bool
  missing : Option Text
  refused_by : Option Text
  selection : Option SelectionUnread

structure BodyReading (Terms : Type) where
  content : Option Text
  terms : Option Terms
  unread : Bool
  unavailable : Option Text
  selection : Option SelectionUnread

section

variable {Url W Licence Terms Statement : Type} (u : UrlCrate Url) (lossy : Bytes → Text) (attribution : RobotsOutcome → Text)
  (reader : LicenceReader Licence Terms Statement)

/-! ### What a licence body says -/

def BodyReading.of (body licence_url page_url : Text) : BodyReading Terms :=
  match reader.parse_rsl body with
  | .ok document =>
    match document.content_for u page_url with
    | .ok (some content) => ⟨some content.url, some (reader.licence_terms content licence_url), false, none, none⟩
    | .ok none => ⟨none, none, false, some "no <content> entry in the licence matches this page".toList, none⟩
    | .error unselected => ⟨none, none, true, some (reader.reason unselected), some unselected⟩
  | .error error => ⟨none, none, true, some error, none⟩

structure KeptReading (Terms : Type) where
  licence_url : Text
  page_url : Text
  body : Text
  read : BodyReading Terms

structure LicenceReadings where
  kept : List (KeptReading Terms)
  sound : ∀ entry ∈ kept, entry.read = BodyReading.of u reader entry.body entry.licence_url entry.page_url

variable {u reader}

def LicenceReadings.find (readings : LicenceReadings u reader) (licence_url page_url body : Text) :
    Option (BodyReading Terms) :=
  (readings.kept.find? fun entry => entry.licence_url = licence_url ∧ entry.page_url = page_url ∧
    entry.body = body).map (·.read)

def LicenceReadings.keep (readings : LicenceReadings u reader) (licence_url page_url body : Text) :
    LicenceReadings u reader where
  kept := readings.kept ++ [⟨licence_url, page_url, body, BodyReading.of u reader body licence_url page_url⟩]
  sound := by
    intro entry member
    rcases List.mem_append.mp member with before | last_
    · exact readings.sound entry before
    · rw [List.mem_singleton.mp last_]

theorem LicenceReadings.find_eq {readings : LicenceReadings u reader} {licence_url page_url body : Text}
    {read : BodyReading Terms}
    (found : readings.find licence_url page_url body = some read) : read = BodyReading.of u reader body licence_url page_url := by
  obtain ⟨entry, is, rfl⟩ := Option.map_eq_some_iff.mp found
  have same := List.find?_some is
  simp only [decide_eq_true_eq] at same
  obtain ⟨rfl, rfl, rfl⟩ := same
  exact readings.sound entry (List.mem_of_find?_eq_some is)

variable (u reader)

/-- What a call keeps in hand: the record of the page's origin, the bodies read where it is paced, and the world. -/
structure Pass (W : Type) where
  record : HostRecord
  readings : Option (LicenceReadings u reader)
  world : W

structure LicenceRead (W : Type) where
  outcome : LicenceOutcome Terms
  sent_at : Int
  pass : Pass u reader W

variable {u reader}

def read_of (readings : Option (LicenceReadings u reader)) (licence_url page_url body : Text) :
    BodyReading Terms × Option (LicenceReadings u reader) :=
  match readings.bind (·.find licence_url page_url body) with
  | some read => (read, readings)
  | none => (BodyReading.of u reader body licence_url page_url, readings.map (·.keep licence_url page_url body))

theorem read_of_eq (readings : Option (LicenceReadings u reader)) (licence_url page_url body : Text) :
    (read_of readings licence_url page_url body).1 = BodyReading.of u reader body licence_url page_url := by
  unfold read_of
  split
  · rename_i read found
    obtain ⟨kept, _, found⟩ := Option.bind_eq_some_iff.mp found
    exact LicenceReadings.find_eq found
  · rfl

def missing_licence (licence_url : Text) (status : Nat) : Text :=
  "the declared licence ".toList ++ licence_url ++ " is missing: it answered ".toList ++ (toString status).toList ++
    ", so the crossing proceeds with no licence terms".toList

def licence_outcome (licence_probe : Probe) (cache : CacheDecision) (licence_url : Text) (mechanism : LicenceMechanism)
    (page_url : Text) (now : Int) (pass : Pass u reader W) : LicenceRead u reader W :=
  let sent_at := if cache = .fetched then licence_probe.fetched_at else now
  let outcome : LicenceOutcome Terms :=
    { url := licence_url, url_rendered := false, mechanism, cache, status := licence_probe.status, unavailable := none,
      content := none, terms := none, unread := false, missing := none, refused_by := licence_probe.refused_by,
        selection := none }
  match licence_probe.body with
  | none =>
    match licence_probe.error, licence_probe.status.filter licence_is_missing with
    | none, some status =>
      let reason := missing_licence licence_url status
      ⟨{ outcome with unavailable := some reason, missing := some reason }, sent_at, pass⟩
    | _, _ => ⟨{ outcome with unread := true, unavailable := some (failure_of licence_url licence_probe) }, sent_at, pass⟩
  | some body =>
    let read := read_of pass.readings licence_url page_url body
    ⟨{ outcome with
        content := read.1.content
        terms := read.1.terms
        unread := read.1.unread
        unavailable := read.1.unavailable
        selection := read.1.selection },
      sent_at, { pass with readings := read.2 }⟩

def unsent (url : Text) (now expires_at : Int) (reason : Text) : Probe :=
  { url, fetched_at := now, expires_at, final_url := none, status := none, body := none, truncated := none,
    error := some reason,
    not_sent := true, declined_redirect := none, cut_short := false, refused_by := none }

def OTHER_SCHEME_LICENCE : Text := "this edge requests http and https URLs only".toList

def REFUSED_BY_ROBOTS : Text := "robots.txt".toList

def fetchable (u : UrlCrate Url) (url : Text) : Bool :=
  (u.parse url).any fun parsed => u.scheme parsed = "http".toList || u.scheme parsed = "https".toList

def serialised_http (u : UrlCrate Url) (url : Text) : Bool := fetchable u url && (u.parse url).any fun parsed => u.to_string parsed = url

def sentence_url (u : UrlCrate Url) (url : Text) : Text :=
  if serialised_http u url then url
  else if fetchable u url then "a URL the source wrote in a form this edge does not quote".toList
  else "a URL whose scheme is not http or https".toList

namespace Edge

variable (u) (edge : Edge W)

def turn (reserve : Option Nat) (url : Text) (now : Int) (world : W) : Except Text Int × W :=
  match edge.pacing, reserve with
  | some pacing, some reserve => pacing.probe_reserving url now reserve world
  | _, _ => (.ok now, world)

def end_probe (reserve : Option Nat) (world : W) : W :=
  match edge.pacing, reserve with
  | some pacing, some _ => pacing.end_probe world
  | _, _ => world

def redirects : ProbeKind → Redirects
  | .robots => .followed
  | .licence => .ruled

/-- The probe of a slot. `reserve` is what a probe that takes a turn must leave. -/
def cached_probe (slot : Option Probe) (url : Text) (now : Int) (reserve : Option Nat) (kind : ProbeKind) (world : W) :
    Option (Probed × W) :=
  match live slot url now kind with
  | some existing => some (⟨existing, .reused, slot⟩, world)
  | none =>
    match edge.turn reserve url now world with
    | (.error reason, world) =>
      let unasked := unsent url now now reason
      some (⟨unasked, .not_asked, some unasked⟩, edge.end_probe reserve world)
    | (.ok now, world) =>
      let asked := edge.probe url (redirects kind) world
      (fresh_probe lossy url now kind asked.1).map fun fresh =>
        (⟨fresh, fresh.decision, fresh.kept⟩, edge.end_probe reserve asked.2)

/-- What `robots.txt` says for a URL. -/
def read_robots_in (record : HostRecord) (url : Text) (now : Int) (world : W) : Option (RobotsIn × W) :=
  let asked := edge.probe (robots_url_of u url) .followed world
  (Declarations.read_robots_in u lossy record url now asked.1).map fun read =>
    let world := if read.probed.cache = .reused then world else asked.2
    (read, match edge.pacing with
      | some pacing => pacing.learn (host_of u url) read world
      | none => world)

def save_changed (url : Text) (loaded record : HostRecord) (world : W) : W :=
  if record.robots ≠ loaded.robots ∨ record.robots_held ≠ loaded.robots_held then edge.save (file_of u url) record world else world

def rule_probe (url : Text) (now : Int) (world : W) : Option (ProbeRuling × W) :=
  let loaded := edge.load (file_of u url) world
  (edge.read_robots_in u lossy loaded url now world).map fun read =>
    (ProbeRuling.of attribution read.1.robots now, edge.save_changed u url loaded read.1.record read.2)

end Edge

variable (edge : Edge W)

namespace Pass

def rule_probe (pass : Pass u reader W) (page_url url : Text) (now : Int) : Option (ProbeRuling × Pass u reader W) :=
  if same_origin u url page_url then
    (edge.read_robots_in u lossy pass.record url now pass.world).map fun read =>
      (ProbeRuling.of attribution read.1.robots now, { pass with record := read.1.record, world := read.2 })
  else
    (edge.rule_probe u lossy attribution url now pass.world).map fun read => (read.1, { pass with world := read.2 })

def put_licence (pass : Pass u reader W) (url : Text) (slot : Option Probe) : Pass u reader W :=
  { pass with record := { pass.record with licences := Function.update pass.record.licences url slot } }

def probe_licence (pass : Pass u reader W) (url : Text) (now : Int) (reserve : Option Nat) :
    Option (Probed × Pass u reader W) :=
  (edge.cached_probe lossy (pass.record.licences url) url now reserve .licence pass.world).map fun probed =>
    (probed.1, { pass with world := probed.2 }.put_licence url probed.1.slot)

def named_licence_probe (pass : Pass u reader W) (page_url url : Text) (now : Int) (reserve : Option Nat) :
    Option (Probe × CacheDecision × Pass u reader W) :=
  match live (pass.record.licences url) url now .licence with
  | some existing => some (existing, .reused, pass)
  | none =>
    if fetchable u url then do
      let ruled ← pass.rule_probe lossy attribution edge page_url url now
      match ruled.1 with
      | .allowed =>
        let probed ← ruled.2.probe_licence lossy edge url now reserve
        return (probed.1.probe, probed.1.cache, probed.2)
      | .refused reason expires_at =>
        let refused := { unsent url now expires_at reason with refused_by := some REFUSED_BY_ROBOTS }
        return (refused, .not_asked, ruled.2.put_licence url (if now < expires_at then some refused else none))
      | .unread reason => return (unsent url now now reason, .not_asked, ruled.2.put_licence url none)
    else some (unsent url now now OTHER_SCHEME_LICENCE, .not_asked, pass)

def read_licence (pass : Pass u reader W) (licence_url : Text) (mechanism : LicenceMechanism) (page_url : Text) (now : Int)
    (reserve : Option Nat) : Option (LicenceRead u reader W) :=
  (pass.probe_licence lossy edge licence_url now reserve).map fun probed =>
    licence_outcome probed.1.probe probed.1.cache licence_url mechanism page_url now probed.2

def read_named (pass : Pass u reader W) (licence_url : Text) (mechanism : LicenceMechanism) (page_url : Text) (now : Int)
    (reserve : Option Nat) : Option (LicenceRead u reader W) :=
  (pass.named_licence_probe lossy attribution edge page_url licence_url now reserve).map fun answer =>
    licence_outcome answer.1 answer.2.1 licence_url mechanism page_url now answer.2.2

/-- At the page's origin a licence `robots.txt` names is read without a ruling. -/
def read_robots_licence (pass : Pass u reader W) (licence_url page_url : Text) (now : Int) (reserve : Option Nat) :
    Option (LicenceRead u reader W) :=
  if same_origin u licence_url page_url then pass.read_licence lossy edge licence_url .robots_license page_url now reserve
  else pass.read_named lossy attribution edge licence_url .robots_license page_url now reserve

end Pass

inductive DelayOutcome where
  | clear
  | waited
  | refused
  | unavailable
deriving DecidableEq

structure DelayRuling where
  host : Text
  delay_ms : Nat
  outcome : DelayOutcome
  wait_ms : Option Nat
  budget_ms : Nat
  next_at : Option Int
  unavailable : Option Text
  recovered : Option Text
  licence_first : Option Text

def DelayRuling.withhold_times (ruling : DelayRuling) : DelayRuling := { ruling with wait_ms := none, next_at := none }

def millis (duration : Nat) : Nat := min (duration / 1000000) (2 ^ 64 - 1)

structure RobotsRead where
  record : HostRecord
  robots : RobotsOutcome
  host : Text
  file : Text
  robots_url : Text
  refused_by_the_access_rule : Bool

variable (u) in
def read_robots (page_url : Text) (now : Int) (mode : PolicyMode) (world : W) : Option (RobotsRead × W) :=
  let loaded := edge.load (file_of u page_url) world
  (edge.read_robots_in u lossy loaded page_url now world).map fun read =>
    let robots := read.1.robots.rule mode
    ({ record := read.1.record, robots, host := host_of u page_url, file := file_of u page_url, robots_url := robots.url,
       refused_by_the_access_rule := robots.refuses },
      edge.save_changed u page_url loaded read.1.record read.2)

def joined (u : UrlCrate Url) (base licence : Text) : Option Text :=
  ((u.parse base).bind fun base => u.join base licence).map u.to_string

namespace RobotsRead

variable (read : RobotsRead)

attribute [local instance] lawful_text

/-- The licences `robots.txt` names for the page, in the order written, each once. -/
def robots_licences (u : UrlCrate Url) : List Text :=
  ((read.robots.reading.map (·.licences)).getD []).foldl (fun licences licence =>
    match joined u read.robots_url licence with
    | none => licences
    | some joined => if joined ∈ licences then licences else licences ++ [joined]) []

def current (url : Text) (now : Int) : Bool := (read.record.licences url).any fun probe =>
    probe.url = url && now < probe.expires_at

/-- The licences to be read before the page, each with whether `robots.txt` names it. -/
def licences_first (u : UrlCrate Url) (page_url : Text) (now : Int) (paced : Bool) : List (Text × Bool) :=
  if read.refused_by_the_access_rule then []
  else
    let robots_licences := read.robots_licences u
    let first := (robots_licences.filter fun url => !read.current url now).map (·, true)
    match read.record.page_licences page_url with
    | some url => if paced && url ∉ robots_licences && !read.current url now then first ++ [(url, false)] else first
    | none => first

end RobotsRead

structure Declared (Terms Statement : Type) where
  backoff : List Text
  robots : RobotsOutcome
  delay : Option DelayRuling
  licences : List (LicenceOutcome Terms)
  content_usage_header : Option Text
  content_usage_header_rendered : Bool
  statements : List Statement

/-- A licence `robots.txt` names that this crossing did not ask for, and why. -/
def not_asked (url why : Text) : LicenceOutcome Terms :=
  { url, url_rendered := false, mechanism := .robots_license, cache := .not_asked, status := none, unavailable := some why,
    content := none, terms := none, unread := true, missing := none, refused_by := none, selection := none }

variable (u reader) in
structure Progress (W : Type) where
  pass : Pass u reader W
  now : Int
  licences : List (LicenceOutcome Terms)
  statements : List Statement
  unsent : Option Text
  backoff_refused : Bool

namespace Progress

variable (at_ : Progress u reader W)

def enter (outcome : LicenceOutcome Terms) (pass : Pass u reader W) : Progress u reader W :=
  { at_ with
    pass
    licences := at_.licences ++ [outcome]
    statements := at_.statements ++ ((outcome.terms.map reader.statements).getD []) }

def backed_off (before : Nat) (world : W) : Bool :=
  edge.pacing.any fun pacing =>
    ((pacing.backoff_events world).drop before).any fun outcome => outcome = "refused".toList ∨ outcome = "unavailable".toList

variable (u reader) in
structure FirstRead (W : Type) where
  cache : CacheDecision
  reason : Option Text
  refused : Bool
  sent_at : Int
  next : Progress u reader W

def read_one (page_url url : Text) (from_robots : Bool) (reserve : Option Nat) : Option (FirstRead u reader W) :=
  if from_robots then
    (at_.pass.read_robots_licence lossy attribution edge url page_url at_.now reserve).map fun read =>
      { cache := read.outcome.cache, reason := read.outcome.unavailable, refused := read.outcome.refused_by.isSome,
        sent_at := read.sent_at, next := at_.enter read.outcome read.pass }
  else
    (at_.pass.named_licence_probe lossy attribution edge page_url url at_.now reserve).map fun answer =>
      { cache := answer.2.1, reason := answer.1.error, refused := answer.1.refused_by.isSome, sent_at := answer.1.fetched_at,
        next := { at_ with pass := answer.2.2 } }

def reserve (host : Text) (page_delay : Option Nat) (url : Text) (later : List (Text × Bool)) : Nat :=
  let same_after := (later.filter fun entry => host_of u entry.1 = host).length
  match edge.pacing, page_delay with
  | some pacing, some delay =>
    if host_of u url = host then delay * (same_after + 1)
    else pacing.pending_wait host at_.now at_.pass.world + delay * same_after
  | _, _ => 0

def read_first (host : Text) (page_delay : Option Nat) (page_url : Text) : List (Text × Bool) → Progress u reader W →
    Option (Progress u reader W)
  | [], at_ => some at_
  | (url, from_robots) :: later, at_ => do
    let reserve := edge.pacing.map fun _ => at_.reserve edge host page_delay url later
    let before := (edge.pacing.map fun pacing => (pacing.backoff_events at_.pass.world).length).getD 0
    let read ← at_.read_one lossy attribution edge page_url url from_robots reserve
    if read.cache = .not_asked then
      if read.refused then return read.next
      else return { read.next with
        unsent := some (sentence_url u url ++ " was not asked for: ".toList ++ read.reason.getD "no reason recorded".toList)
        backoff_refused := backed_off edge before read.next.pass.world }
    else read_first host page_delay page_url later { read.next with now := max at_.now read.sent_at }

/-- The licences `robots.txt` names that were not read before the page. -/
def read_rest (refused : Bool) (first : List (Text × Bool)) (page_url : Text) : List Text → Progress u reader W →
    Option (Progress u reader W)
  | [], at_ => some at_
  | url :: later, at_ => do
    if at_.licences.any (·.url = url) then read_rest refused first page_url later at_
    else if refused then
      let outcome := not_asked url ("the access rule refused this crossing before the licence was read, so the " ++
        "source was not asked for it").toList
      -- Refused already: its terms are not what refuses it.
      read_rest refused first page_url later (at_.enter { outcome with unread := false } at_.pass)
    else if first.any (·.1 = url) then
      let outcome := not_asked url "a licence named before it was not read, so this one was not asked for either".toList
      read_rest refused first page_url later (at_.enter outcome at_.pass)
    else
      let read ← at_.pass.read_robots_licence lossy attribution edge url page_url at_.now (edge.pacing.map fun _ => 0)
      read_rest refused first page_url later (at_.enter read.outcome read.pass)

end Progress

/-- The ruling that refuses the page and the licences before it, where the whole sequence does not fit. -/
def refusal (u : UrlCrate Url) (edge : Edge W) (read : RobotsRead) (page_delay : Option Nat) (first : List (Text × Bool))
    (now : Int) (world : W) :
    Option DelayRuling :=
  match edge.pacing, page_delay with
  | some pacing, some delay =>
    if first.isEmpty then none
    else
      let pending := pacing.pending_wait read.host now world
      let need := pending + delay * (first.filter fun entry => host_of u entry.1 = read.host).length
      let spendable := pacing.spendable_now world
      let ruling : DelayRuling :=
        { host := read.host, delay_ms := millis delay, outcome := .refused, wait_ms := some (millis need),
          budget_ms := millis spendable, next_at := some (now + millis pending * 1000000), unavailable := none,
            recovered := none,
          licence_first := some (" and ".toList.intercalate (first.map (·.1))) }
      if spendable < need then some (if pacing.names_the_edge then ruling else ruling.withhold_times) else none
  | _, _ => none

def unsent_ruling (read : RobotsRead) (page_delay : Option Nat) (first : List (Text × Bool)) (at_ : Progress u reader W) :
    Option DelayRuling :=
  match at_.unsent, page_delay with
  | some reason, some delay =>
    if at_.backoff_refused then none
    else some
      { host := read.host, delay_ms := millis delay, outcome := .refused, wait_ms := none,
        budget_ms := (edge.pacing.map fun pacing => millis (pacing.spendable_now at_.pass.world)).getD 0, next_at := none,
        unavailable := some reason, recovered := none, licence_first := some (" and ".toList.intercalate (first.map (·.1))) }
  | _, _ => none

def DOES_NOT_FIT : Text :=
  ("reading this licence before the page, and the page after it, does not fit " ++
    "what this fetch may still spend waiting under the source's `Crawl-delay`, so " ++ "neither was asked for").toList

/-- `stated` is what the reading of `robots.txt` states. -/
def read_declared (read : RobotsRead) (page_url : Text) (stated : List Statement) (now : Int)
    (readings : Option (LicenceReadings u reader)) (world : W) : Option (Declared Terms Statement × Pass u reader W) :=
  let robots_licences := read.robots_licences u
  let page_delay := edge.pacing.bind fun pacing => pacing.delay_for read.host world
  let first := read.licences_first u page_url now page_delay.isSome
  let pass : Pass u reader W := ⟨read.record, readings, world⟩
  match refusal u edge read page_delay first now world with
  | some ruling =>
    some ({ backoff := [], robots := read.robots, delay := some ruling, licences := robots_licences.map (not_asked · DOES_NOT_FIT),
            content_usage_header := none, content_usage_header_rendered := false, statements := stated },
      { pass with world := edge.save read.file read.record world })
  | none => do
    let start : Progress u reader W := ⟨pass, now, [], stated, none, false⟩
    let firsts ← start.read_first lossy attribution edge read.host page_delay page_url first
    let ended ← firsts.read_rest lossy attribution edge read.refused_by_the_access_rule first page_url robots_licences
    return ({
      backoff := if firsts.backoff_refused then (edge.pacing.map fun pacing => pacing.backoff_events ended.pass.world).getD [] else []
      robots := read.robots
      delay := unsent_ruling edge read page_delay first firsts
      licences := ended.licences
      content_usage_header := none
      content_usage_header_rendered := false
      statements := ended.statements },
      { ended.pass with world := edge.save read.file ended.pass.record ended.pass.world })

/-! ### What the response names -/

inductive MemberReading where
  | no_licence
  | named (url : Text)
  | unread (why : Text)
deriving DecidableEq

/-- A member of a `Link` field as it is read, and as it is written. -/
structure LinkMember where
  reading : MemberReading
  written : Text
  rendered : Bool

structure UnreadLink where
  written : Text
  rendered : Bool
  why : Text

structure LinkLicences where
  named : Option Text
  unread : List UnreadLink

def ANOTHER_LICENCE : Text :=
  ("the response names another RSL licence before this one, and this " ++
    "edge reads one licence per page, so this licence's terms are " ++ "unknown").toList

def LinkLicences.read (found : LinkLicences) (member : LinkMember) : LinkLicences :=
  match member.reading, found.named with
  | .no_licence, _ => found
  | .named url, none => { found with named := some url }
  | .named url, some first => if first = url then found else { found with unread := found.unread ++
    [⟨url, false, ANOTHER_LICENCE⟩] }
  | .unread why, _ => { found with unread := found.unread ++ [⟨member.written, member.rendered, why⟩] }

def rsl_links (members : List LinkMember) : LinkLicences := members.foldl LinkLicences.read ⟨none, []⟩

/-- What the page's response carries: the `Content-Usage` header with what it states, and the members of its `Link` fields. -/
structure PageResponse (Statement : Type) where
  content_usage : Option (Text × Bool × List Statement)
  links : List LinkMember

def Declared.content_usage (declared : Declared Terms Statement) (response : PageResponse Statement) :
    Declared Terms Statement :=
  match response.content_usage with
  | none => declared
  | some (header, rendered, states) =>
    { declared with
      content_usage_header := some header
      content_usage_header_rendered := rendered
      statements := declared.statements ++ states }

def remember (links : LinkLicences) (page_url : Text) (record : HostRecord) : HostRecord :=
  match links.named with
  | some url => { record with page_licences := Function.update record.page_licences page_url (some url) }
  | none =>
    if links.unread.isEmpty then { record with page_licences := Function.update record.page_licences page_url none } else record

def UnreadLink.outcome (link : UnreadLink) : LicenceOutcome Terms :=
  { url := link.written, url_rendered := link.rendered, mechanism := .link_header, cache := .not_asked, status := none,
    unavailable := some link.why, content := none, terms := none, unread := true, missing := none, refused_by := none,
      selection := none }

/-- The licence a response names is read where it has no entry yet, and the record of the page is saved where it changed. -/
def Declared.read_named (declared : Declared Terms Statement) (links : LinkLicences) (loaded : HostRecord)
    (page_url : Text) (now : Int)
    (pass : Pass u reader W) : Option (Declared Terms Statement × Pass u reader W) :=
  match links.named.filter fun url => !declared.licences.any (·.url = url) with
  | some licence_url =>
    (pass.read_named lossy attribution edge licence_url .link_header page_url now (edge.pacing.map fun _ => 0)).map fun read =>
      ({ declared with
          licences := declared.licences ++ [read.outcome]
          statements := declared.statements ++ ((read.outcome.terms.map reader.statements).getD []) },
        { read.pass with world := edge.save (file_of u page_url) read.pass.record read.pass.world })
  | none =>
    if loaded.page_licences page_url ≠ pass.record.page_licences page_url then
      some (declared, { pass with world := edge.save (file_of u page_url) pass.record pass.world })
    else some (declared, pass)

def after_fetch (declared : Declared Terms Statement) (page_url : Text) (response : PageResponse Statement) (now : Int)
    (readings : Option (LicenceReadings u reader)) (world : W) : Option (Declared Terms Statement × Pass u reader W) :=
  let links := rsl_links response.links
  let loaded := edge.load (file_of u page_url) world
  ((declared.content_usage response).read_named lossy attribution edge links loaded page_url now
      ⟨remember links page_url loaded, readings, world⟩).map fun named =>
    ({ named.1 with licences := named.1.licences ++ links.unread.map UnreadLink.outcome }, named.2)

end

end CommonMeasure.Declarations
