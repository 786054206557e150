import CommonMeasure.Admission.Policy
import CommonMeasure.Foundation.Traced

/-!
# What a fetch sends

The requests of one `context_fetch`, from the checks of its URL to the probes after its answer: the page and its redirects, the retry
with a pass, and what discovery probes for.
-/

namespace CommonMeasure.Mediation.Sending

open Foundation Foundation.Traced
open Admission (Ruling)

/-- What bounds a fetch: the policy, the terms' Anchors, the hubs the edge keeps off, and whether it has a key to sign with. -/
structure Bounds (Address : Type) where
  mediates_address : String → Bool
  keeps_off_hub : String → Bool
  admit_host : String → Ruling
  holds_private_floor : Bool
  under_internal : String → Bool
  address_url : Address → String
  /-- The origin of the Anchor the operator terms name for a URL's host. -/
  anchor_for : String → Option String
  host_of : String → String
  fetchable : String → Bool
  signer : Bool

namespace Bounds

variable {Address : Type} (b : Bounds Address)

def allows (url : String) : Bool := b.mediates_address url && b.keeps_off_hub url && !(b.admit_host url).is_refusal

def reaches_allowed_addresses (url : String) (addresses : List Address) : Bool :=
  !b.holds_private_floor && b.under_internal url || addresses.all fun address => b.mediates_address (b.address_url address)

def within_profile (asked hop : String) : Bool :=
  match b.anchor_for asked, b.anchor_for hop with
  | none, none => true
  | some fetch, some hop => fetch = hop
  | _, _ => false

end Bounds

structure Request (Address : Type) where
  url : String
  addresses : List Address
  signed : Bool
  content_telemetry_id : Option String
  authorization : Option String
  /-- Whether it asks for the page or a hop of it, and not for what discovery reads. -/
  page : Bool

structure Response where
  status : Nat
  location : Option String
  private_token : Bool

def asks_for_a_pass (response : Response) : Bool := response.status = 401 && response.private_token

inductive Event (Address : Type) where
  /-- The URL passed the address, hub and host checks. -/
  | checked (url : String)
  /-- No ruling on what the URL's origin declares refused it. -/
  | ruled (url : String)
  | turned (url : String)
  | looked_up (url : String)
  | sent (request : Request Address)
  | answered (url : String) (response : Response)
  /-- A pass answers the challenge of a URL. -/
  | passed (url pass : String)

inductive Redirects where
  | followed
  | ruled

abbrev Probed := Option (String × Response)

structure World (Address Read Declared : Type) where
  resolve : List (Event Address) → String → Option (List Address)
  budget : List (Event Address) → Bool
  before_send : List (Event Address) → String → Bool
  sign_request : List (Event Address) → String → Bool
  send_to : List (Event Address) → Request Address → Option Response
  /-- Whether the answer was recorded in the pacing store. -/
  recorded : List (Event Address) → Bool
  /-- A `Location`, resolved against the URL just requested. -/
  join : String → String → Option String
  over_ceiling : List (Event Address) → Bool
  read_robots : List (Event Address) → String → Asks (String × Redirects) Probed Read
  early_manifest : List (Event Address) → Read → Bool
  resolve_manifest : List (Event Address) → String → Asks (String × Redirects) Probed Unit
  read_declared : List (Event Address) → Read → String → Asks (String × Redirects) Probed Declared
  sends : List (Event Address) → Declared → Bool
  /-- Whether the allowance lets the fetch go on. -/
  authorises : List (Event Address) → Declared → Bool
  /-- Whether `rule_on_declarations` refuses a URL. -/
  refuses : List (Event Address) → String → Declared → Bool
  take_page_turn : List (Event Address) → Declared → Bool
  /-- The rules of a probe's redirect: `robots.txt` at its own origin, whose redirects are followed. -/
  rule_probe : List (Event Address) → String → Asks String Probed Bool
  probe_hop : List (Event Address) → String → Bool
  /-- The correlation id, where the host is known to take part. -/
  content_telemetry_id : List (Event Address) → Declared → Option String
  pass_for : List (Event Address) → String → String → Response → Option String
  after_fetch : List (Event Address) → String → Response → Asks (String × Redirects) Probed Declared
  late_manifest : List (Event Address) → Declared → Bool

def MAX_REDIRECTS : Nat := 5

variable {Address Read Declared : Type} (b : Bounds Address) (w : World Address Read Declared)

def allowed (url : String) : Traced (Event Address) Bool :=
  if b.allows url then do
    emit (.checked url)
    pure true
  else pure false

structure Chain where
  first : String
  identity : Bool
  content_telemetry_id : Option String
  authorization : Option String
  page : Bool

/-- The request of a hop: the correlation id stays on the first host, and a pass on the first request. -/
def Chain.request (chain : Chain) (hop : Nat) (current : String) (addresses : List Address) : Request Address where
  url := current
  addresses := addresses
  signed := chain.identity
  content_telemetry_id := if b.host_of current = b.host_of chain.first then chain.content_telemetry_id else none
  authorization := if hop = 0 then chain.authorization else none
  page := chain.page

def follow_resolving (on_hop : String → Traced (Event Address) Bool) (chain : Chain) :
    Nat → Nat → String → Traced (Event Address) Probed
  | 0, _, _ => pure none
  | left + 1, hop, current => do
    emit (.looked_up current)
    let resolved ← consult fun trace => w.resolve trace current
    match resolved with
    | none => pure none
    | some addresses =>
      if !b.reaches_allowed_addresses current addresses then pure none
      else do
        let ready ← consult fun trace =>
          w.budget trace && w.before_send trace current && (!chain.identity || w.sign_request trace current)
        if !ready then pure none
        else do
          emit (.sent (chain.request b hop current addresses))
          let sent ← consult fun trace => w.send_to trace (chain.request b hop current addresses)
          match sent with
          | none => pure none
          | some response => do
            emit (.answered current response)
            let recorded ← consult w.recorded
            if !recorded then pure none
            else if !([301, 302, 307, 308].contains response.status) then pure (some (current, response))
            else
              match response.location.bind (w.join current) with
              | none => pure none
              | some next =>
                if !b.fetchable next then pure none
                else do
                  let admitted ← allowed b next
                  if !admitted then pure none
                  else do
                    let passes ← on_hop next
                    if !passes then pure none else follow_resolving on_hop chain left (hop + 1) next

variable (asked : String)

def probe_with (rules : String → Traced (Event Address) Bool) (url : String) : Traced (Event Address) Probed := do
  let admitted ← allowed b url
  if !admitted then pure none
  else
    let anonymous := (b.anchor_for asked).isSome || (b.anchor_for url).isSome
    -- A signed probe is not carried to a host under an Anchor.
    let on_hop (hop : String) : Traced (Event Address) Bool :=
      if !anonymous && (b.anchor_for hop).isSome then pure false else rules hop
    follow_resolving b w on_hop ⟨url, b.signer && !anonymous, none, none, false⟩ (MAX_REDIRECTS + 1) 0 url

def probe_followed (url : String) : Traced (Event Address) Probed := probe_with b w asked (fun _ => pure true) url

def probe_ruled (url : String) : Traced (Event Address) Probed :=
  probe_with b w asked (fun hop => do
    let rules ← consult fun trace => w.rule_probe trace hop
    let allows ← rules.run (probe_followed b w asked)
    if !allows then pure false else consult fun trace => w.probe_hop trace hop) url

def probe : String × Redirects → Traced (Event Address) Probed
  | (url, .followed) => probe_followed b w asked url
  | (url, .ruled) => probe_ruled b w asked url

def discover {α : Type} (reads : List (Event Address) → Asks (String × Redirects) Probed α) : Traced (Event Address) α := do
  let asks ← consult reads
  asks.run (probe b w asked)

def before_fetch (url : String) : Traced (Event Address) Declared := do
  let read ← discover b w asked fun trace => w.read_robots trace url
  discover b w asked fun trace => w.read_declared trace read url

def rule_and_turn (url : String) (declared : Declared) : Traced (Event Address) Bool := do
  let refused ← consult fun trace => w.refuses trace url declared
  if refused then pure false
  else do
    emit (.ruled url)
    let turned ← consult fun trace => w.take_page_turn trace declared
    if !turned then pure false
    else do
      emit (.turned url)
      pure true

def on_hop (hop : String) : Traced (Event Address) Bool := do
  let exceeded ← consult w.over_ceiling
  if exceeded then pure false
  else if !b.within_profile asked hop then pure false
  else do
    let declared ← before_fetch b w asked hop
    rule_and_turn w hop declared

def follow_page (declared : Declared) : Traced (Event Address) Probed := do
  let id ← consult fun trace => w.content_telemetry_id trace declared
  let anchored := (b.anchor_for asked).isSome
  follow_resolving b w (on_hop b w asked) ⟨asked, b.signer && !anchored, if anchored then none else id, none, true⟩
    (MAX_REDIRECTS + 1) 0 asked

/-- A challenge under an Anchor is answered once, at the URL that challenged, with a pass from the wallet. -/
def retry_with_pass (followed : Probed) : Traced (Event Address) Probed :=
  match b.anchor_for asked, followed with
  | some anchor, some (challenged, response) =>
    if !asks_for_a_pass response then pure followed
    else do
      let pass ← consult fun trace => w.pass_for trace anchor challenged response
      match pass with
      | none => pure followed
      | some pass => do
        emit (.passed challenged pass)
        follow_resolving b w (on_hop b w asked) ⟨challenged, false, none, some pass, true⟩ (MAX_REDIRECTS + 1) 0 challenged
  | _, _ => pure followed

def read_answer (final_url : String) (response : Response) : Traced (Event Address) Unit := do
  let declared ← discover b w asked fun trace => w.after_fetch trace final_url response
  let late ← consult fun trace => w.late_manifest trace declared
  if late then discover b w asked fun trace => w.resolve_manifest trace final_url else pure ()

def request (declared : Declared) : Traced (Event Address) Unit := do
  let goes ← consult fun trace => w.sends trace declared && w.authorises trace declared
  if !goes then pure ()
  else do
    let ruled ← rule_and_turn w asked declared
    if !ruled then pure ()
    else do
      let first ← follow_page b w asked declared
      let followed ← retry_with_pass b w asked first
      match followed with
      | none => pure ()
      | some (final_url, response) =>
        if 200 ≤ response.status ∧ response.status < 300 then read_answer b w asked final_url response
        else pure ()

def read_early (read : Read) : Traced (Event Address) Unit := do
  let early ← consult fun trace => w.early_manifest trace read
  if early then discover b w asked fun trace => w.resolve_manifest trace asked else pure ()

def fetch : Traced (Event Address) Unit := do
  let admitted ← allowed b asked
  if !admitted then pure ()
  else do
    let read ← discover b w asked fun trace => w.read_robots trace asked
    read_early b w asked read
    let declared ← discover b w asked fun trace => w.read_declared trace read asked
    request b w asked declared

end CommonMeasure.Mediation.Sending
