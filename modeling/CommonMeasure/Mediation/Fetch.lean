import CommonMeasure.Mediation.Crossing

/-!
# One fetch

`fetch_unquoted`, from its arguments to its result or its error, over what everything it consults answers.
-/

namespace CommonMeasure.Mediation

open Admission (Ruling LicenceState Money AcquisitionCharge PolicyMode)
open Purchase (AllowanceContext GateDecision Ledger)

structure Server where
  mode : PolicyMode
  /-- What the allowances are accounted in, where any is declared. -/
  allowance : Option AllowanceContext
  declared : ∀ context, allowance = some context → context.declared = true
  /-- An edge of one's own, which names its files; else a hosted one. -/
  names_the_edge : Bool
  record_named : AgentText
  policy_named : AgentText
  /-- Whether the policy's file has a parent directory. -/
  home : Bool

inductive BodyKind where
  | text
  | pdf
  | unsupported (media : String)
  deriving DecidableEq

structure Response where
  status : Nat
  body : Bytes
  /-- The bytes as they came, where the body was coded. -/
  coded : Option Bytes
  /-- Whether it carries a `PrivateToken` challenge. -/
  private_token : Bool
  served_as_release : Bool
  /-- `fetched_file::classify`. -/
  classified : BodyKind
  /-- Whether its `Content-Type` holds bytes that are not UTF-8. -/
  content_type_rendered : Bool
  /-- `challenge_of`, as recorded and as named, without a pass and with one. -/
  challenge : Bool → Option (String × AgentText)

inductive RefusedBy where
  | source
  | policy
  | runtime
  deriving DecidableEq

inductive FetchFailure where
  | refused (url reason : String) (agent_reason : AgentText) (by_ : RefusedBy) (hop : Nat)
  | backoff (url reason : String) (agent_reason : AgentText) (by_ : RefusedBy) (hop : Nat)
  | failed (url detail : String) (agent_reason : AgentText)
  | not_sent (url detail : String) (agent_reason : AgentText)
  | unrecorded (url : String) (status : Nat) (detail : String) (agent_reason : AgentText)

abbrev Followed := Except FetchFailure (String × Response)

variable (D R I S : Type)

structure Occasion where
  session_start : Except AgentText Unit
  url : Option String
  offset : Member
  max_chars : Member
  host_call : Except AgentText Unit
  mediates_address : Except AgentText Unit
  named_by : String
  keeps_off_hub : Except String Unit
  admission : Spoken
  instance_permits : Except AgentText Unit
  /-- What `read_declared` left: whether the page may be sent for, and why not. -/
  sends : Bool
  pace : Refusal
  known : D × List Spoken
  declared : D
  /-- What the licence quotes, where the page is not its origin's own `robots.txt`. -/
  quoted_price : Option Money
  ledger : Ledger
  gate_reason : AgentText
  before : D × List Spoken
  /-- Why the page's own turn was not taken. -/
  turn : D × Option Refusal
  content_telemetry_id : Option String
  /-- Whether the URL is under an Anchor, and what a pass from the wallet gives. -/
  anchored : Bool
  followed : Followed
  pass_for : Except (String × AgentText) Unit
  retried : Followed
  /-- The hops, each after the one that redirected to it. -/
  hops : List (D × List Spoken)
  redirected : D → D → D
  backed_off : D → D
  presented : Bool → I
  requested_at : Option Int
  refused_by : Option D → String → RefusedBy → Option AgentText
  admit_host : String → Spoken
  /-- What `after_fetch` left and what is ruled on it. -/
  after : D → D × List Spoken
  licence_of : D → LicenceState
  pii_not_read : Spoken
  injection_not_read : Spoken
  save : Except String Unit
  resolve_manifest : Option Nat
  acquisition_handle : Except Unit (Option String)
  extracted : List Char
  /-- A signed release: its text, its record and the verifier's ruling; or why it does not read as one. -/
  release : Except (String × AgentText) (List Char × R × Spoken)
  release_shown : R → Part → S × List Char
  pii : Spoken
  injection : Spoken
  release_fields : Spoken
  estimate_tokens : List Char → Nat
  sha256_digest : Bytes → String

variable {D R I S} (T : Admission.Texts) (server : Server) (o : Occasion D R I S)

def HUB_ORIGIN_REFUSAL : AgentText :=
  "This address is at the origin of the hub this edge is enrolled with. A mediated crossing is signed with the enrolled key, " ++
    "which the hub's own routes accept, so none is made to it. No policy setting lifts this."

def hop_named (own : String) (hop : Nat) : AgentText := if hop = 0 then own else "the target of redirect " ++ toString hop

namespace Occasion

def knows (declarations : D) (facts : FetchFacts D R I) : FetchFacts D R I :=
  { facts with declarations := some (o.backed_off declarations), named_by := some o.named_by }

def asked (declarations : D) (pass : Bool) (allowance : Option AllowanceRecord) (facts : FetchFacts D R I) : FetchFacts D R I :=
  { o.knows declarations facts with
    content_telemetry_id := o.content_telemetry_id
    identity := some (o.presented pass)
    requested_at := o.requested_at
    allowance }

def breach_at (asked reached : String) : Option String :=
  if reached = asked then o.admission.ruling.reason else (o.admit_host reached).ruling.reason

def fold_hops (first : D × List Spoken) (hops : List (D × List Spoken)) : D × List Spoken × List Spoken :=
  hops.foldl (fun folded hop => (o.redirected folded.1 hop.1, folded.2.1 ++ folded.2.2, hop.2)) (first.1, [], first.2)

def retrieved_hash (response : Response) : String := o.sha256_digest (response.coded.getD response.body)

end Occasion

/-! ### The authorisation -/

/-- `release_authorisation`, and what it writes. -/
def release_authorisation (authorised : Option GateDecision) : Option AllowanceRecord × List (Event D R I) :=
  match authorised with
  | none => (none, [])
  | some decision =>
    let written := release_mediated o.ledger decision
    (some ⟨{ decision with reservation := none }, written, none⟩, ledger_events written)

/-- `settle_authorisation`, and what it writes. -/
def settle_authorisation (authorised : Option GateDecision) : Option AllowanceRecord × List (Event D R I) :=
  match authorised, server.allowance with
  | some decision, some context =>
    let written := settle_mediated T context o.ledger decision ⟨none, none⟩
    (some ⟨decision, written, some ("nothing: no settlement rail is configured, so the quoted price was reserved and " ++
      "released on the receipt, not paid")⟩, ledger_events written)
  | _, _ => (none, [])

structure Answered (D : Type) where
  url : String
  final_url : String
  response : Response
  window : FetchWindow
  pass : Bool
  /-- The last hop's declarations, and how many hops came before it. -/
  declarations : D
  redirects : Nat
  rulings : List Spoken
  host_breach : Option String
  allowance : Option AllowanceRecord

variable (a : Answered D)

namespace Answered

def final_named : AgentText := if a.final_url = a.url then hop_named a.url 0 else hop_named a.url a.redirects

def facts (facts : FetchFacts D R I) (declarations : D) (breach : Option String) : FetchFacts D R I :=
  o.asked declarations a.pass a.allowance
    { facts with
      http_status := some a.response.status
      retrieved_hash := some (o.retrieved_hash a.response)
      breach
      licence := o.licence_of declarations }

end Answered

def withheld (agent_reason : AgentText) : AgentText :=
  "withheld from context: " ++ agent_reason ++ " The bytes were fetched and are not returned; the statement and its source are " ++
    "recorded in " ++ server.record_named ++ "."

def recorded (facts : FetchFacts D R I) (fetched : Fetched S) : Passage D R I S :=
  ⟨[.recorded facts], match o.acquisition_handle with
    | .error _ => .error "unavailable: acquisition evidence was not durably recorded"
    | .ok _ => .ok fetched⟩

def file_refused (kind : BodyKind) (after : List Spoken) (unscreened : Bool) : Option (String × AgentText) :=
  match first_refused after with
  | some (reason, agent_reason) => some (reason, withheld server agent_reason)
  | none =>
    match kind with
    | .unsupported media => some (
      "unavailable: " ++ media ++ " is a file this edge does not deliver; it hands over PDFs as files and decodes text, and kept " ++
        "nothing of this body",
      "unavailable: " ++ a.final_named ++ " is a file this edge does not deliver. Only PDFs are handed over as files; nothing of this " ++
        "body was kept. The fetch and its type are recorded in " ++ server.record_named ++ ".")
    | _ =>
      if unscreened then some (
        "unavailable: the edge does not read files, so the PII and injection screens that policy_mode \"strict\" enforces cannot " ++
          "rule on this PDF; nothing of it was kept",
        "unavailable: " ++ a.final_named ++ " is a PDF. This edge does not read files, so the PII and injection screens that " ++
          "policy_mode \"strict\" enforces cannot rule on it. Nothing of it was kept; the fetch is recorded in " ++
          server.record_named ++ ".")
      else if a.window.names_a_part then some (
        "a PDF is delivered whole in one call; offset and max_chars do not apply",
        "refused: " ++ a.final_named ++ " is a PDF, which is delivered whole in one call. Call context_fetch with the url alone, " ++
          "without offset or max_chars. The page was fetched and nothing was kept; the fetch is recorded in " ++
          server.record_named ++ ".")
      else none

def NOT_READ : String :=
  "delivered as a file, not read by the edge; the PII detector and the injection screen did not run over it"

def deliver_file (kind : BodyKind) (after : D × List Spoken) : Passage D R I S :=
  let content_hash := o.sha256_digest a.response.body
  let content_type := match kind with
    | .unsupported media => media
    | _ => "application/pdf"
  let breach := merge_breaches a.host_breach (breaches_of after.2)
  let screened := kind = .pdf ∧ first_refused after.2 = none
  let unscreened := decide screened && (o.pii_not_read.ruling.is_refusal || o.injection_not_read.ruling.is_refusal)
  let delivered_breach :=
    if screened ∧ unscreened = false then
      merge_breaches (merge_breaches breach o.pii_not_read.ruling.reason) o.injection_not_read.ruling.reason
    else breach
  let refuse (saved : List (Event D R I)) (refused : String × AgentText) : Passage D R I S :=
    (record_told (a.facts o { FetchFacts.refused a.final_url refused.1 with
      content_hash := some content_hash
      content_type := some content_type
      content_type_rendered := (kind matches .unsupported _) && a.response.content_type_rendered } after.1 breach) refused.2).after saved
  let deliver (saved : List (Event D R I)) (embedded : Bool) : Passage D R I S :=
    (recorded o (a.facts o { FetchFacts.carried a.final_url with
        content_hash := some content_hash
        content_type := some content_type
        manifest_record := o.resolve_manifest
        delivered_file := some ⟨if embedded then .embedded_resource else .local_file, a.response.body.length, NOT_READ⟩ }
        after.1 delivered_breach)
      ⟨a.final_url, content_hash, o.retrieved_hash a.response, a.response.status, .file a.response.body embedded⟩).after saved
  match file_refused server a kind after.2 unscreened with
  | some refused => refuse [] refused
  | none =>
    -- A local edge saves the bytes before the crossing is recorded.
    if server.names_the_edge then
      match o.save with
      | .ok _ => deliver [.saved a.response.body] false
      | .error error => refuse [] (
        "unavailable: the file could not be saved under the session's directory: " ++ error,
        "unavailable: the PDF at " ++ a.final_named ++ " was fetched and could not be saved under this session's directory, so it " ++
          "is not handed over. The fetch and the fault are recorded in " ++ server.record_named ++ ".")
    else deliver [] true

def deliver_text (after : D × List Spoken) (text : List Char) (release : Option (R × Spoken)) : Passage D R I S :=
  let hash := o.sha256_digest (as_bytes text)
  let part := a.window.slice text
  let shown := release.map fun release => o.release_shown release.1 part
  let tokens := o.estimate_tokens part.text + (shown.map fun shown => o.estimate_tokens shown.2).getD 0
  let declared_breach := merge_breaches a.host_breach (breaches_of after.2)
  let read (facts : FetchFacts D R I) : FetchFacts D R I :=
    { facts with content_hash := some hash, estimated_tokens := some tokens, release := release.map (·.1) }
  let refuse (reason : String) (told : AgentText) : Passage D R I S :=
    record_told (a.facts o (read (.refused a.final_url reason)) after.1 declared_breach) told
  match first_refused after.2 with
  | some (reason, agent_reason) => refuse reason (withheld server agent_reason)
  | none =>
    match part.past_end with
    | some reason =>
      refuse reason (reason ++ " The page was fetched and its hash is on the record in " ++ server.record_named ++ ".")
    | none =>
      let release_ruling := (release.map (·.2)).getD ⟨.allowed, ""⟩
      let fields_ruling := if release.isSome then o.release_fields else ⟨.allowed, ""⟩
      match first_refused [release_ruling, o.injection, fields_ruling] with
      | some (reason, agent_reason) =>
        refuse reason ("refused before the content entered the context: " ++ agent_reason ++
          " The page was fetched and its hash is " ++
          "on the record; the finding is recorded in " ++ server.record_named ++ ".")
      | none =>
        let breach := [release_ruling, o.pii, o.injection, fields_ruling].foldl
          (fun breach spoken => merge_breaches breach spoken.ruling.reason) declared_breach
        recorded o (a.facts o { read (.carried a.final_url) with
            manifest_record := o.resolve_manifest
            delivered := some (part.delivered o.sha256_digest)
            grounded := true } after.1 breach)
          ⟨a.final_url, hash, o.retrieved_hash a.response, a.response.status, .text part (shown.map (·.1))⟩

def deliver : Passage D R I S :=
  let after := o.after a.declarations
  if a.response.served_as_release then
    match o.release with
    | .ok (text, record, ruling) => deliver_text server o a after text (some (record, ruling))
    | .error (reason, unreadable) =>
      let refused := (first_refused after.2).map fun (reason, agent_reason) => (reason, withheld server agent_reason)
      let (refusal, told) := refused.getD (
        "unavailable: the body was served as application/x.signed-release+json and does not read as one: " ++ reason ++
          "; nothing of it was kept",
        "unavailable: " ++ a.final_named ++ ": " ++ unreadable ++ " Nothing of it was kept; the fetch is recorded in " ++
          server.record_named ++ ".")
      record_told (a.facts o (.refused a.final_url refusal) after.1 (merge_breaches a.host_breach (breaches_of after.2))) told
  else if a.response.classified = .text then deliver_text server o a after o.extracted none
  else deliver_file server o a a.response.classified after

def Response.asks_for_a_pass (response : Response) : Bool := response.status = 401 && response.private_token

structure Follow where
  urls : List String
  followed : Followed
  pass : Bool
  gap : Option (String × AgentText)

def follow (url : String) : Follow :=
  match o.anchored, o.followed with
  | true, .ok (challenged, response) =>
    if response.asks_for_a_pass then
      match o.pass_for with
      | .ok _ => ⟨[url, challenged], o.retried, true, none⟩
      | .error gap => ⟨[url], o.followed, false, some gap⟩
    else ⟨[url], o.followed, false, none⟩
  | _, _ => ⟨[url], o.followed, false, none⟩

def OTHER_SCHEME_REDIRECT : String :=
  "a redirect to a URL whose scheme is not http or https, which this edge does not follow: it requests http and https URLs only"

def told_refused (facts : FetchFacts D R I) (url refused reason : String) (agent_reason : AgentText) (by_ : RefusedBy)
    (hop : Nat) :
    AgentText :=
  let at_hop := if 0 < hop ∧ reason ≠ OTHER_SCHEME_REDIRECT then ["at " ++ hop_named url hop] else []
  let context := "; ".intercalate (at_hop ++ (o.refused_by facts.declarations refused by_).toList)
  if context = "" then "refused before the crossing: " ++ agent_reason
  else "refused before the crossing: " ++ agent_reason ++ " (" ++ context ++ ")"

def answered_outside (gap : Option (String × AgentText)) : Passage D R I S :=
  let challenge := a.response.challenge a.pass
  let facts : FetchFacts D R I := o.asked a.declarations a.pass a.allowance
    { FetchFacts.carried a.final_url with
      http_status := some a.response.status
      breach := merge_breaches a.host_breach (breaches_of a.rulings)
      challenge := challenge.map (·.1) }
  match gap with
  | some (reason, agent_reason) =>
    record_told { facts with
        refusal := some ("refused: " ++ a.final_url ++ " asked for an anonymous pass, and none was presented: " ++ reason) }
      ("refused: " ++ a.final_named ++ " asked for an anonymous pass, and none was presented: " ++ agent_reason ++
        " No content was " ++
        "retrieved, and no request was sent without the pass; the attempt is recorded in " ++ server.record_named ++ ".")
  | none =>
    record_told facts (match challenge with
      | some (_, named) =>
        a.final_named ++ " refused the request: " ++ named ++ " Operator policy allowed the crossing and no content was retrieved; the " ++
          "attempt and the identity presented are recorded in " ++ server.record_named ++ "."
      | none => a.final_named ++ " answered " ++ toString a.response.status)

def request (url : String) (window : FetchWindow) (authorised : Option GateDecision) (allowance_breach : Option String) :
    Passage D R I S :=
  let follow := follow o url
  let (declarations, earlier, last_) := o.fold_hops (o.turn.1, o.before.2) o.hops
  let released := release_authorisation o authorised
  let breaches (host : Option String) (allowed : Option String) : Option String :=
    merge_breaches (merge_breaches (merge_breaches host allowed) (breaches_of earlier)) (breaches_of last_)
  let refused (at_ reason : String) (agent_reason : AgentText) (by_ : RefusedBy) (hop : Nat) : Passage D R I S :=
    let facts := o.asked declarations follow.pass released.1
      { FetchFacts.refused at_ reason with breach := breaches o.admission.ruling.reason allowance_breach }
    (record_told facts (told_refused o facts url at_ reason agent_reason by_ hop)).after released.2
  let failed (at_ detail : String) (status : Option Nat) (agent_reason : AgentText) : Passage D R I S :=
    let facts := o.asked declarations follow.pass released.1
      { FetchFacts.carried at_ with
        http_status := status
        failure := some detail
        breach := merge_breaches (breaches (o.breach_at url at_) none) allowance_breach }
    (record_told facts agent_reason).after released.2
  Passage.after (follow.urls.map .requested) (match follow.followed with
    | .error (.refused at_ reason agent_reason by_ hop) => refused at_ reason agent_reason by_ hop
    | .error (.backoff at_ reason agent_reason by_ hop) => refused at_ reason agent_reason by_ hop
    | .error (.failed at_ detail agent_reason) => failed at_ detail none agent_reason
    | .error (.not_sent at_ detail agent_reason) => failed at_ detail none agent_reason
    | .error (.unrecorded at_ status detail agent_reason) => failed at_ detail (some status) agent_reason
    | .ok (final_url, response) =>
      let settled := settle_authorisation T server o authorised
      let a : Answered D :=
        { url, final_url, response, window, pass := follow.pass, declarations, redirects := o.hops.length, rulings := last_,
          host_breach := merge_breaches (merge_breaches (o.breach_at url final_url) allowance_breach) (breaches_of earlier)
          allowance := settled.1 }
      (if 200 ≤ response.status ∧ response.status < 300 then deliver server o a
        else answered_outside server o a follow.gap).after settled.2)

def rule_and_take_turn (url : String) (window : FetchWindow) (authorised : Option GateDecision)
    (allowance_breach : Option String) :
    Passage D R I S :=
  let breach := merge_breaches (merge_breaches o.admission.ruling.reason (breaches_of o.before.2)) allowance_breach
  let released := release_authorisation o authorised
  match first_refused o.before.2 with
  | some (reason, agent_reason) =>
    let facts := { o.knows o.before.1 (.refused url reason) with breach, allowance := released.1 }
    let refused_by := ((o.refused_by facts.declarations url .source).map (· ++ "; ")).getD ""
    (record_told facts ("refused before the crossing: " ++ agent_reason ++ " (" ++ refused_by ++ "the source's declarations are recorded " ++
      "in " ++ server.record_named ++ ")")).after released.2
  | none =>
    match o.turn.2 with
    | some refusal =>
      (record_told { o.knows o.turn.1 (.refused url refusal.reason) with breach, allowance := released.1 }
        ("refused before the crossing: " ++ refusal.agent_reason ++ " The refusal is recorded in " ++
          server.record_named ++ ".")).after
          released.2
    | none => request T server o url window authorised allowance_breach

def no_home : AgentText :=
  "unavailable: the policy source has no parent directory, so the allowance ledger cannot be located and the declared allowance " ++
    "cannot be enforced. No fetch was attempted."

def authorise (url : String) (window : FetchWindow) : Passage D R I S :=
  match o.quoted_price, server.allowance with
  | some price, some context =>
    if server.home then
      let decision := Purchase.pre_dispatch T context o.ledger server.mode (some price)
      Passage.after (decision.events.map .ledger) (match decision.ruling with
        | none => rule_and_take_turn T server o url window (some decision) none
        | some ruling =>
          if ruling.is_refusal then
            record_told { o.knows o.declared (.refused url (ruling.reason.getD "")) with allowance := some ⟨decision, [], none⟩ }
              ("refused before the crossing: " ++ o.gate_reason ++ " (" ++ server.policy_named ++ ")")
          else rule_and_take_turn T server o url window (some decision) ruling.reason)
    else ⟨[], .error no_home⟩
  | _, _ => rule_and_take_turn T server o url window none none

def cross (url : String) (window : FetchWindow) : Passage D R I S :=
  match o.keeps_off_hub with
  | .error reason =>
    record_told { FetchFacts.refused url reason with named_by := some o.named_by } ("refused before the crossing: " ++
      HUB_ORIGIN_REFUSAL)
  | .ok _ =>
    match o.admission.refused with
    | some (reason, agent_reason) =>
      record_told { FetchFacts.refused url reason with named_by := some o.named_by }
        ("refused before the crossing: " ++ agent_reason ++ " (" ++ server.policy_named ++ ")")
    | none =>
      match o.instance_permits with
      | .error told => ⟨[], .error told⟩
      | .ok _ =>
        if o.sends then authorise T server o url window
        else
          record_told { o.knows o.known.1 (.refused url o.pace.reason) with
              breach := merge_breaches o.admission.ruling.reason (breaches_of o.known.2) }
            ("refused before the crossing: " ++ o.pace.agent_reason ++ " The refusal is recorded in " ++
              server.record_named ++ ".")

def fetch_unquoted : Passage D R I S :=
  match o.session_start, o.url, FetchWindow.from_arguments o.offset o.max_chars, o.host_call, o.mediates_address with
  | .error told, _, _, _, _ => ⟨[], .error told⟩
  | .ok _, none, _, _, _ => ⟨[], .error "url is required"⟩
  | .ok _, some _, .error told, _, _ => ⟨[], .error told⟩
  | .ok _, some _, .ok _, .error told, _ => ⟨[], .error told⟩
  | .ok _, some _, .ok _, .ok _, .error told => ⟨[], .error told⟩
  | .ok _, some url, .ok window, .ok _, .ok _ => cross T server o url window

end CommonMeasure.Mediation
