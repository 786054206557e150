import CommonMeasure.Declarations.Licences
import CommonMeasure.Declarations.Terms
import CommonMeasure.Json.Text
import CommonMeasure.Reporting.Demands

/-!
# The rulings on what a source declares

The access rule, the licences that were not read, the AI-input statements, the payments and the licence servers, each a refusal
whatever the operator's mode, and the breach of a `robots.txt` redirect, which the mode decides.
-/

namespace CommonMeasure.Reporting

open Admission (PolicyMode)
open Declarations (RobotsOutcome RobotsRuling LicenceTerms RslPayment RslAmount StatementSource Statement Category Effective)
open Mediation (AgentText Spoken)

/-! ### What is ruled on -/

abbrev LicenceRead := Declarations.LicenceOutcome LicenceTerms

structure BackoffEvent where
  outcome : String
  reason : Option String
  agent_reason : Option AgentText

structure Ruled where
  robots : RobotsOutcome
  licences : List LicenceRead
  statements : List Statement
  effective : Category → Option Effective
  terms : Option Agreement
  reporting : Option ReportingRuling
  reporting_demands : List ReportingRuling

structure Wording where
  quoted_rule : String → String
  named_licence : LicenceRead → String
  named_amount : RslAmount → String
  /-- The quoted price, where the amount is one. -/
  price : RslPayment → Option String
  rfc3339 : Int → String

def demand_of (reporting : Declarations.RslReporting) : RslReporting where
  kind := String.ofList reporting.kind
  profile := String.ofList reporting.profile
  endpoint := reporting.endpoint.map String.ofList
  conformance_level := reporting.config.bind fun config => (config.get "conformance_level").asStr

def mechanism_of : Declarations.LicenceMechanism → LicenceMechanism
  | .link_header => .link_header
  | .robots_license => .robots_license

def read_for_reporting (licence : LicenceRead) : LicenceOutcome where
  url := String.ofList licence.url
  mechanism := mechanism_of licence.mechanism
  terms := licence.terms.map fun terms => terms.reporting.map demand_of

def Ruled.declared (declarations : Ruled) : Declared Unit where
  licences := declarations.licences.map read_for_reporting
  terms := declarations.terms
  reporting := declarations.reporting
  reporting_demands := declarations.reporting_demands
  rest := ()

namespace Ruled

def ai_input (declarations : Ruled) : Effective := (declarations.effective .AiInput).getD .Unknown

def ai_input_disallowed_by (declarations : Ruled) : List Statement :=
  declarations.statements.filter fun statement => statement.category = .AiInput && statement.preference = .Disallow

def governing_licences (declarations : Ruled) : List (LicenceRead × LicenceTerms) :=
  let ranked (mechanism : Declarations.LicenceMechanism) :=
    (declarations.licences.filter (·.mechanism = mechanism)).filterMap fun licence => licence.terms.map (licence, ·)
  let page := ranked .link_header
  if page.isEmpty then ranked .robots_license else page

end Ruled

section

variable {Url : Type} [DecidableEq Url] (u : Urls Url) (home : Home) (session : Session) (wording : Wording)

/-- `str::replace`: the count is what is left of the match before. -/
def replaced (pattern shown : List Char) : Nat → List Char → List Char
  | _, [] => if pattern = [] then shown else []
  | left + 1, _ :: rest => replaced pattern shown left rest
  | 0, c :: rest =>
    if pattern = [] then shown ++ c :: replaced pattern shown 0 rest
    else if pattern.isPrefixOf (c :: rest) then shown ++ replaced pattern shown (pattern.length - 1) rest
    else c :: replaced pattern shown 0 rest

def file (robots : RobotsOutcome) : String :=
  let url := String.ofList robots.url
  let answered := match robots.held_copy with
    | some copy => copy.final_url
    | none => robots.final_url
  match answered.map String.ofList with
  | some answered =>
    if answered ≠ url then u.sentence_url url ++ " (redirected to " ++ u.sentence_url answered ++ ")" else u.sentence_url url
  | none => u.sentence_url url

/-- Why the file could not be read, with the URLs it names as a sentence names them, the longest first. -/
def failure (robots : RobotsOutcome) : String :=
  match robots.unavailable with
  | none => "no answer"
  | some failure =>
    let urls := ([some robots.url, robots.final_url, robots.declined_redirect].filterMap id).map String.ofList
    ((urls.mergeSort fun a b => b.utf8ByteSize ≤ a.utf8ByteSize).destutter (· ≠ ·)).foldl
      (fun failure url => String.ofList (replaced url.toList (u.sentence_url url).toList 0 failure.toList)) (String.ofList failure)

def PRODUCT_TOKEN : String := "CommonMeasureBot"

def about_copy (robots : RobotsOutcome) : String :=
  (match robots.held_copy with
    | some copy => " (ruled by the copy read " ++ wording.rfc3339 copy.fetched_at ++
      ", held because the file could not be read now: " ++ failure u robots ++ ")"
    | none => "") ++
  match robots.truncated with
  | some cut => " (read from the first " ++ toString cut.read ++ " of its " ++ toString cut.size ++
    " bytes, the complete lines within this edge's parsing limit of 524288 bytes, RFC 9309 section 2.5)"
  | none => ""

def attribution (robots : RobotsOutcome) : String :=
  let asked := String.ofList robots.requested_url
  let url := String.ofList robots.url
  match robots.reading with
  | none =>
    if robots.unreachable then
      file u robots ++ " could not be reached for " ++ u.sentence_url asked ++ ": " ++ failure u robots ++
        ". No copy of it is held, so every path on " ++ u.host_of asked ++ " is treated as disallowed for " ++ PRODUCT_TOKEN ++
        " (RFC 9309 " ++
        (if robots.declined_redirect.isSome then "section 2.3.1.4, and section 2.3.1.2 on redirects" else "section 2.3.1.4") ++ ")"
    else if robots.cut_short then
      u.sentence_url url ++ " was not read for " ++ u.sentence_url asked ++ ": " ++
        String.ofList ((failure u robots).toList.rdropWhile (· = '.')) ++
        ". The request failed for a reason of this edge's own, so the host is not held to have failed and the file is asked for " ++
        "again at the next crossing. No copy of it is held, and a page is not fetched under a robots.txt this edge has not read"
    else u.sentence_url url ++ " could not be read for " ++ u.sentence_url asked ++ ": " ++ failure u robots
  | some reading =>
    match reading.too_many_readings with
    | some too_many =>
      file u robots ++ " is not compared with " ++ u.sentence_url asked ++ ": " ++ String.ofList too_many.text ++
        about_copy u wording robots
    | none =>
      match reading.group with
      | none =>
        file u robots ++ " publishes no group for " ++ PRODUCT_TOKEN ++ " or `*`, so no access rule applies to " ++
          u.sentence_url asked ++ about_copy u wording robots
      | some group =>
        let group := "the `User-agent: " ++ String.ofList group ++ "` group, which " ++
          if reading.group_is_wildcard then "addresses every fetcher because no group names " ++ PRODUCT_TOKEN
          else "names " ++ PRODUCT_TOKEN
        let rule := match reading.access_rule with
          | some rule => "rule `" ++ wording.quoted_rule (String.ofList rule) ++
            if reading.access_rule_wildcard = some true then "`, a wildcard pattern" else "`, a literal path prefix"
          | none => "no rule matching the path, which permits it"
        file u robots ++ (if reading.crawlable = some false then " disallows " else " allows ") ++ PRODUCT_TOKEN ++ " at " ++
          u.sentence_url asked ++ ": " ++ group ++ "; " ++ rule ++ about_copy u wording robots

def stopping (events : List BackoffEvent) (unavailable : Option Declarations.Text) : Option BackoffEvent :=
  events.reverse.find? fun event =>
    (event.outcome = "refused" || event.outcome = "unavailable") &&
      event.reason.any fun reason => unavailable.any fun unavailable => unavailable.tails.any (reason.toList.isPrefixOf ·)

def access_refusal (events : List BackoffEvent) (robots : RobotsOutcome) : Spoken :=
  let attribution := attribution u wording robots
  match robots.ruling with
  | .unreachable =>
    binding_breach
      (attribution ++
        ". An unreachable robots.txt is a complete disallow in every policy mode: refused before the request.")
      ("The source's robots.txt could not be reached (" ++
        (if robots.declined_redirect.isSome then "it redirected to a URL which this edge does not follow"
          else match robots.status with
            | some status => "it answered " ++ toString status
            | none => "the request for it failed or was not answered") ++
        "), and no copy of it is held. An unreachable robots.txt is a complete disallow in every policy mode: refused before the " ++
        "request.")
  | .cut_short =>
    binding_breach
      (attribution ++ ": refused before the request, in every policy mode.")
      ("The source's robots.txt was not read, because this edge's own request for it was not sent or was cut short" ++
        (match stopping events robots.unavailable with
          | some event => (event.agent_reason.map (": " ++ ·)).getD ""
          | none => " (the call's time limit, or a request it could not sign; the record names which)") ++
        ", and no copy of it is held: refused before the request, in every policy mode. The file is asked for again at the next " ++
        "crossing.")
  | _ =>
    binding_breach
      (attribution ++ ". A `Disallow` binds in every policy mode: refused before the request.")
      ("The source's robots.txt disallows this fetcher at this path. A `Disallow` binds in every policy mode: refused before the " ++
        "request.")

variable (admit_host : PolicyMode → String → Spoken)

/-- The breach of the operator's host policy where `robots.txt` was fetched from another host. -/
def robots_redirect_breach (mode : PolicyMode) (robots : RobotsOutcome) : Option Spoken :=
  if robots.cache ≠ .fetched then none
  else match robots.final_url.map String.ofList with
    | none => none
    | some answered =>
      if u.host_of answered = u.host_of (String.ofList robots.url) then none
      else
        let admitted := admit_host mode answered
        match admitted.ruling with
        | .allowedWithBreach reason => some
          ⟨.allowedWithBreach
            (String.ofList robots.url ++ " redirected to " ++ answered ++ ", which was requested for its rules: " ++ reason),
            "The source's robots.txt redirected to another host, which was requested for its rules: " ++ admitted.agent_reason⟩
        | _ => none

def robots_rulings (events : List BackoffEvent) (mode : PolicyMode) (robots : RobotsOutcome) : List Spoken :=
  (if (robots.rule mode).refuses then [access_refusal u wording events robots] else []) ++
    (robots_redirect_breach u admit_host mode robots).toList

def selection_reason : Declarations.SelectionUnread → String
  | .over_budget => "choosing among the <content> entries that match this page takes more work than this edge does for one page"
  | .none_governs => "<content> entries match this page and none of them could be ruled the narrowest"

/-- An unread licence as the agent reads of it: where the source named it, and why it is unread by class. -/
def unread_licence_named (events : List BackoffEvent) (licence : LicenceRead) : AgentText :=
  let named := match licence.mechanism with
    | .link_header => "a licence in a member of the response's Link header"
    | .robots_license => "a licence its robots.txt names"
  let why := match (stopping events licence.unavailable).bind BackoffEvent.agent_reason with
    | some backoff => "it was not requested: " ++ backoff
    | none =>
      if licence.cache = .not_asked then "it was not requested"
      else match licence.selection, licence.status with
        | some unselected, _ => selection_reason unselected
        | none, some status =>
          if licence.terms.isNone && licence.content.isNone then
            "it answered " ++ toString status ++ " or its document did not parse"
          else "the request for it failed or its document did not parse"
        | none, none => "the request for it failed or its document did not parse"
  "The source names " ++ named ++ ", which could not be read (" ++ why ++
    "), so its terms, including any reporting demand, are unknown and the page is not admitted under them in any policy mode."

def unread_refusal (events : List BackoffEvent) (licence : LicenceRead) : Spoken :=
  ⟨.refused ("The source names " ++ wording.named_licence licence ++ ", which could not be read (" ++
      (licence.unavailable.map String.ofList).getD "no reason recorded" ++
      "), so its terms, including any reporting demand, are unknown and the page is not admitted under them in any policy mode."),
    unread_licence_named events licence⟩

def statement_source_named : StatementSource → String
  | .ContentUsageHeader => "the response's Content-Usage header"
  | .RobotsContentUsage => "a Content-Usage rule in its robots.txt"
  | .RobotsContentSignal => "a Content-Signal line in its robots.txt"
  | .RslLicence => "its RSL licence"
  | .PastedRsl => "an RSL licence the user pasted"
  | .PastedContentUsage => "a Content-Usage line the user pasted"
  | .PastedC2pa => "a C2PA assertion in what the user pasted"

def preference_refusal (declarations : Ruled) : Spoken :=
  let statements := declarations.ai_input_disallowed_by
  binding_breach
    ("The source disallows AI input (" ++ "; ".intercalate (statements.map fun statement => String.ofList statement.detail) ++ ").")
    ("The source disallows AI input (in " ++
      "; ".intercalate (statements.map fun statement => statement_source_named statement.source) ++ ").")

def defined_payment_kind (kind : String) : Option String :=
  if kind ∈ ["purchase", "subscription", "training", "crawl", "use", "contribution", "attribution",
    "free"] then some kind else none

def payment_refusal (licence : LicenceRead) (payment : RslPayment) : Spoken :=
  let kind := payment.kind.map String.ofList
  binding_breach
    ("The licence " ++ String.ofList licence.url ++ " permits AI input under payment type " ++ kind.getD "unstated" ++
      ((payment.amount.map fun amount => " (" ++ wording.named_amount amount ++ ")").getD "") ++
      ", and this edge holds no settlement rail, so the payment term is unmet.")
    ("The licence the source names permits AI input under " ++
      (match kind with
        | none => "payment type unstated"
        | some kind => match defined_payment_kind kind with
          | some defined => "payment type " ++ defined
          | none => "a payment type this edge does not recognise") ++
      ((wording.price payment).map fun price => " (" ++ price ++ ")").getD "" ++
      ", and this edge holds no settlement rail, so the payment term is unmet.")

def server_refusal (licence : LicenceRead) (server : String) : Spoken :=
  binding_breach
    ("The licence " ++ String.ofList licence.url ++ " names a licence server (" ++ u.quoted_url server ++
      ") a client must obtain a licence from before access, and this edge holds no rail to do so.")
    ("The licence the source names requires a licence obtained from a licence server before access, and this edge holds no rail to " ++
      "do so.")

def payment_due (terms : LicenceTerms) : Option RslPayment :=
  terms.payment.filter fun payment => terms.offer.isSome && payment.needs_settlement

def settlement_refusal (licence : LicenceRead) (terms : LicenceTerms) : Option Spoken :=
  match payment_due terms with
  | some payment => some (payment_refusal wording licence payment)
  | none => terms.server.map fun server => server_refusal u licence (String.ofList server)

def term_rulings (events : List BackoffEvent) (declarations : Ruled) : List Spoken :=
  (declarations.licences.filter (·.unread)).map (unread_refusal wording events) ++
    (if declarations.ai_input = .Disallow then [preference_refusal declarations]
      else declarations.governing_licences.filterMap fun (licence, terms) => settlement_refusal u wording licence terms)

/-! ### All of the rulings -/

/-- `McpServer::rule_on_declarations`. -/
def rule_on (mode : PolicyMode) (url : String) (events : List BackoffEvent) (declarations : Ruled) : Ruled × List Spoken :=
  let (declared, rulings) := rule_on_declarations u home session
    (robots_rulings u wording admit_host events mode declarations.robots) (term_rulings u wording events declarations) url
    declarations.declared
  ({ declarations with
      robots := declarations.robots.rule mode
      reporting := declared.reporting
      reporting_demands := declared.reporting_demands }, rulings)

end

end CommonMeasure.Reporting
