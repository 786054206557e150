import CommonMeasure.Reporting.Kept
import CommonMeasure.Mediation.Recorded

/-!
# Nothing is had on a promise of a report that is not sent

A page that is delivered passed the rulings on what it declares, so each demand of its reporting was met.
-/

namespace CommonMeasure.Reporting

open Mediation
open Purchase (GateDecision)

/-! ### What a delivery has passed -/

section

variable {D R I S : Type} {T : Admission.Texts} {server : Server} {o : Occasion D R I S} {window : FetchWindow} {url : String}
variable {authorised : Option GateDecision} {breach : Option String} {a : Answered D}

/-- What a result says of its page: where it answered, that nothing it declares refused it, and the crossing that records it. -/
structure Delivery (o : Occasion D R I S) (after : D × List Spoken) (events : List (Event D R I)) (fetched : Fetched S)
    (facts : FetchFacts D R I) : Prop where
  unrefused : first_refused after.2 = none
  recorded : .recorded facts ∈ events
  at_ : facts.url = fetched.url
  declares : facts.declarations = some (o.backed_off after.1)
  delivers : facts.Delivers

def Passes (o : Occasion D R I S) (final_url : String) (after : D × List Spoken) (passage : Passage D R I S) : Prop :=
  ∀ fetched, passage.exit = .ok fetched → fetched.url = final_url ∧ ∃ facts, Delivery o after passage.events fetched facts

theorem passes_told {final_url : String} {after : D × List Spoken} {facts : FetchFacts D R I} {told : AgentText} :
    Passes o final_url after (record_told facts told) := fun _ returned => nomatch returned

theorem passes_recorded {final_url : String} {after : D × List Spoken} {facts : FetchFacts D R I} {fetched : Fetched S}
    (unrefused : first_refused after.2 = none) (at_ : facts.url = final_url) (is : fetched.url = final_url)
    (declares : facts.declarations = some (o.backed_off after.1)) (delivers : facts.Delivers) :
    Passes o final_url after (recorded o facts fetched) := by
  intro other returned
  have same : other = fetched := by
    simp only [recorded] at returned
    split at returned
    · cases returned
    · exact (Except.ok.inj returned).symm
  subst same
  exact ⟨is, facts, unrefused, List.mem_singleton_self _, at_.trans is.symm, declares, delivers⟩

theorem Passes.after {final_url : String} {after : D × List Spoken} {passage : Passage D R I S}
    (passes : Passes o final_url after passage)
    (events : List (Event D R I)) : Passes o final_url after (passage.after events) := by
  intro fetched returned
  obtain ⟨at_, facts, delivery⟩ := passes fetched returned
  exact ⟨at_, facts, delivery.unrefused, List.mem_append_right _ delivery.recorded, delivery.at_, delivery.declares,
    delivery.delivers⟩

theorem deliver_text_passes (success : 200 ≤ a.response.status ∧ a.response.status < 300) {after : D × List Spoken}
    (text : List Char)
    (release : Option (R × Spoken)) : Passes o a.final_url after (deliver_text server o a after text release) := by
  unfold deliver_text
  simp only
  cases unrefused : first_refused after.2 with
  | some refused => exact passes_told
  | none =>
    cases (a.window.slice text).past_end with
    | some reason => exact passes_told
    | none =>
      simp only
      split
      · exact passes_told
      · exact passes_recorded unrefused rfl rfl rfl ⟨rfl, rfl, ⟨_, rfl, success⟩, Or.inl ⟨rfl, rfl⟩⟩

theorem file_unrefused {kind : BodyKind} {after : List Spoken} {unscreened : Bool}
    (none_ : file_refused server a kind after unscreened = none) : first_refused after = none := by
  unfold file_refused at none_
  cases refused : first_refused after with
  | none => rfl
  | some refusal =>
    rw [refused] at none_
    cases none_

theorem deliver_file_passes (success : 200 ≤ a.response.status ∧ a.response.status < 300) {after : D × List Spoken}
    (kind : BodyKind) :
    Passes o a.final_url after (deliver_file server o a kind after) := by
  unfold deliver_file
  simp only
  split
  · exact passes_told.after _
  · rename_i unrefused
    have unrefused := file_unrefused unrefused
    split
    · split
      · exact (passes_recorded unrefused rfl rfl rfl ⟨rfl, rfl, ⟨_, rfl, success⟩, Or.inr rfl⟩).after _
      · exact passes_told.after _
    · exact (passes_recorded unrefused rfl rfl rfl ⟨rfl, rfl, ⟨_, rfl, success⟩, Or.inr rfl⟩).after _

theorem deliver_passes (success : 200 ≤ a.response.status ∧ a.response.status < 300) :
    Passes o a.final_url (o.after a.declarations) (deliver server o a) := by
  unfold deliver
  simp only
  split
  · split
    · exact deliver_text_passes success _ _
    · exact passes_told
  · split
    · exact deliver_text_passes success _ _
    · exact deliver_file_passes success _

def Returns (o : Occasion D R I S) (url : String) (passage : Passage D R I S) : Prop :=
  ∀ fetched, passage.exit = .ok fetched → ∃ response declarations facts,
    (follow o url).followed = .ok (fetched.url, response) ∧ Delivery o (o.after declarations) passage.events fetched facts

theorem returns_error {passage : Passage D R I S} {told : AgentText} (error : passage.exit = .error told) :
    Returns o url passage := by
  intro fetched returned
  rw [error] at returned
  cases returned

theorem Returns.after {passage : Passage D R I S} (returns : Returns o url passage) (events : List (Event D R I)) :
    Returns o url (passage.after events) := by
  intro fetched returned
  obtain ⟨response, declarations, facts, followed, delivery⟩ := returns fetched returned
  exact ⟨response, declarations, facts, followed, delivery.unrefused, List.mem_append_right _ delivery.recorded, delivery.at_,
    delivery.declares, delivery.delivers⟩

theorem request_returns : Returns o url (request T server o url window authorised breach) := by
  unfold request
  simp only
  refine Returns.after ?_ _
  split
  · exact returns_error rfl
  · exact returns_error rfl
  · exact returns_error rfl
  · exact returns_error rfl
  · exact returns_error rfl
  · rename_i final_url response followed
    refine Returns.after ?_ _
    split
    · rename_i success
      intro fetched returned
      obtain ⟨at_, facts, delivery⟩ := deliver_passes (by exact success) fetched returned
      exact ⟨response, _, facts, followed.trans (by rw [at_]), delivery⟩
    · rename_i outside
      unfold answered_outside
      simp only
      split
      · exact returns_error rfl
      · exact returns_error rfl

theorem rule_returns : Returns o url (rule_and_take_turn T server o url window authorised breach) := by
  unfold rule_and_take_turn
  simp only
  split
  · exact returns_error rfl
  split
  · exact returns_error rfl
  · exact request_returns

theorem authorise_returns : Returns o url (authorise T server o url window) := by
  unfold authorise
  split
  · split
    · refine Returns.after ?_ _
      split
      · exact rule_returns
      · split
        · exact returns_error rfl
        · exact rule_returns
    · exact returns_error rfl
  · exact rule_returns

theorem cross_returns : Returns o url (cross T server o url window) := by
  unfold cross
  split
  · exact returns_error rfl
  split
  · exact returns_error rfl
  split
  · exact returns_error rfl
  split
  · exact authorise_returns
  · exact returns_error rfl

theorem fetch_returns {fetched : Fetched S} (returned : (fetch_unquoted T server o).exit = .ok fetched) :
    ∃ url, o.url = some url ∧ ∃ response declarations facts, (follow o url).followed = .ok (fetched.url, response) ∧
      Delivery o (o.after declarations) (fetch_unquoted T server o).events fetched facts := by
  unfold fetch_unquoted at returned ⊢
  split at returned
  · cases returned
  · cases returned
  · cases returned
  · cases returned
  · cases returned
  · rename_i url window _ _ _ named _ _ _
    exact ⟨url, named, cross_returns fetched returned⟩

end

section

variable {Url : Type} {u : Urls Url} {w : Wire} {home : Home} {session : Session} {B R I S : Type}

def Demanded (declarations : Declared B) : Prop :=
  (∃ licence ∈ declarations.governing_licences, licence.2 ≠ []) ∨
    ∃ agreement, declarations.terms = some agreement ∧ agreement.requires_reporting = true

def AnchorStands (u : Urls Url) (home : Home) (session : Session) (url : String) : Prop :=
  session.fetch_anchor.isSome = true →
    ∃ document, home.policy = .ok document ∧ (anchor_terms u document session.cwd (u.host_of url)).isSome = true

theorem unanchored {document : PolicyDocument} {url : String} (stands : AnchorStands u home session url)
    (deliverable : Deliverable u home session document url) : session.fetch_anchor = none := by
  cases anchor : session.fetch_anchor with
  | none => rfl
  | some anchor_ =>
    obtain ⟨other, policy, named⟩ := stands (by rw [anchor]; rfl)
    obtain rfl := Except.ok.inj (policy.symm.trans deliverable.policy)
    rw [deliverable.unanchored] at named
    cases named

variable [DecidableEq Url]

structure RuledMet (u : Urls Url) (home : Home) (session : Session) (url : String) (declarations : Declared B) : Prop where
  made : rulings_made u home session url declarations ≠ []
  met : ∀ ruling ∈ rulings_made u home session url declarations, ruling.met = true

theorem demanded_demands {url : String} {declarations : Declared B} (demanded : Demanded declarations) :
    demands u home session url declarations ≠ [] := by
  intro none_
  obtain ⟨unlicensed, unagreed⟩ := List.append_eq_nil_iff.mp none_
  rcases demanded with ⟨licence, governs, demands⟩ | ⟨agreement, is, requires⟩
  · exact demands (List.map_eq_nil_iff.mp (List.flatMap_eq_nil_iff.mp unlicensed licence governs))
  · rw [is, Option.filter_some_pos requires] at unagreed
    cases unagreed

theorem unrefused_met {url : String} {declarations : Declared B} {robots_rulings other_terms : List Spoken}
    (other : is_its_own_robots u url = false) (demanded : Demanded declarations)
    (unrefused : first_refused (rule_on_declarations u home session robots_rulings other_terms url declarations).2 = none) :
    RuledMet u home session url declarations := by
  have passed : ∀ ruled ∈ demands u home session url declarations, ∃ ruling, ruled.1 = some ruling ∧ ruling.met = true := by
    intro ruled member
    have is := demands_ruled ruled member
    have silent (breach : Spoken) (breaches : ruled.2 = some breach) : ¬breach.refused.isSome = true := by
      have listed : breach ∈ (rule_on_declarations u home session robots_rulings other_terms url declarations).2 := by
        unfold rule_on_declarations
        rw [other, if_neg Bool.false_ne_true]
        exact List.mem_append_right _ (List.mem_filterMap.mpr ⟨ruled, member, breaches⟩)
      rw [List.findSome?_eq_none_iff.mp unrefused breach listed]
      exact Bool.false_ne_true
    cases made : ruled.1 with
    | none =>
      obtain ⟨breach, breaches, refuses⟩ := is.unmade made
      exact (silent breach breaches refuses).elim
    | some ruling =>
      refine ⟨ruling, rfl, ?_⟩
      cases met : ruling.met with
      | true => rfl
      | false =>
        obtain ⟨breach, breaches, refuses⟩ := is.unmet ruling made met
        exact (silent breach breaches refuses).elim
  have rulings : rulings_made u home session url declarations = (demands u home session url declarations).filterMap (·.1) := by
    rw [rulings_made, other, if_neg Bool.false_ne_true]
  constructor
  · obtain ⟨ruled, member⟩ := List.exists_mem_of_ne_nil _ (@demanded_demands _ u home session _ _ url declarations demanded)
    obtain ⟨ruling, made, _⟩ := passed ruled member
    rw [rulings]
    exact List.ne_nil_of_mem (List.mem_filterMap.mpr ⟨ruled, member, made⟩)
  · intro ruling member
    rw [rulings] at member
    obtain ⟨ruled, inside, made⟩ := List.mem_filterMap.mp member
    obtain ⟨same, is, met⟩ := passed ruled inside
    obtain rfl := Option.some.inj (is.symm.trans made)
    exact met

theorem met_reported {facts : FetchFacts (Declared B) R I} {declarations declared : Declared B}
    {robots_rulings other_terms : List Spoken}
    (ruled : RuledMet u home session facts.url declarations) (declares : facts.declarations = some declared)
    (reporting : declared.reporting =
      (rule_on_declarations u home session robots_rulings other_terms facts.url declarations).1.reporting)
    (retrieves : Retrieves facts) (stands : AnchorStands u home session facts.url) :
    ∃ document, home.policy = .ok document ∧ ∀ timestamp before after,
      Reported u w document (before ++ crossing_record u w session timestamp facts :: after) before.length
        (crossing_record u w session timestamp facts) := by
  obtain ⟨ruling, recorded, met, is⟩ := @recorded_ruling _ u home session B _ _ _ robots_rulings other_terms ruled.made ruled.met
  obtain ⟨⟨document, deliverable⟩, _⟩ := is.met met
  refine ⟨document, deliverable.policy, fun timestamp before after => ?_⟩
  exact sendable_reported (crossing_sendable deliverable retrieves declares (reporting.trans recorded) met is
    (unanchored stands deliverable) timestamp) before after

/-- A fetch whose page is ruled on by a session: what was read of it, the other rulings on it, and what its crossing keeps of both. -/
structure RulesUnder (u : Urls Url) (home : Home) (session : Session) (o : Occasion (Declared B) R I S) where
  read : Declared B → Declared B
  robots_rulings : Declared B → List Spoken
  other_terms : Declared B → List Spoken
  after : ∀ url final_url response, o.url = some url → (follow o url).followed = .ok (final_url, response) → ∀ declarations,
    o.after declarations = rule_on_declarations u home session (robots_rulings declarations) (other_terms declarations) final_url
      (read declarations)
  backed_off : ∀ declarations, (o.backed_off declarations).licences = declarations.licences ∧
    (o.backed_off declarations).terms = declarations.terms ∧ (o.backed_off declarations).reporting = declarations.reporting

/-- What a session promises is reported: of a crossing whose demands it ruled met, and of a page it hands over. -/
structure ReportsKept (u : Urls Url) (w : Wire) (home : Home) (session : Session) : Prop where
  reported : ∀ {B R I : Type} (facts : FetchFacts (Declared B) R I) (declarations declared : Declared B)
    (robots_rulings other_terms : List Spoken), RuledMet u home session facts.url declarations →
      facts.declarations = some declared →
      declared.reporting =
        (rule_on_declarations u home session robots_rulings other_terms facts.url declarations).1.reporting →
      Retrieves facts → AnchorStands u home session facts.url →
      ∃ document, home.policy = .ok document ∧ ∀ timestamp before after,
        Reported u w document (before ++ crossing_record u w session timestamp facts :: after) before.length
          (crossing_record u w session timestamp facts)
  delivered : ∀ {B R I S : Type} (T : Admission.Texts) (server : Server) (o : Occasion (Declared B) R I S),
    RulesUnder u home session o → ∀ fetched, (fetch_unquoted T server o).exit = .ok fetched →
      is_its_own_robots u fetched.url = false → AnchorStands u home session fetched.url →
      ∃ facts declared, .recorded facts ∈ (fetch_unquoted T server o).events ∧ facts.url = fetched.url ∧
        facts.declarations = some declared ∧ (Demanded declared →
          ∃ document, home.policy = .ok document ∧ ∀ timestamp before after,
            Reported u w document (before ++ crossing_record u w session timestamp facts :: after) before.length
              (crossing_record u w session timestamp facts))

theorem delivers_retrieves {facts : FetchFacts (Declared B) R I} (delivers : facts.Delivers) : Retrieves facts := by
  refine ⟨delivers.unrefused, delivers.reached, ?_⟩
  intro status is
  obtain ⟨same, found, success⟩ := delivers.success
  obtain rfl := Option.some.inj (is.symm.trans found)
  exact success

/-- A demand that is ruled met is reported, and a page that demands reporting is handed over only where its crossing is, whatever the
mode and whatever policy the session began under. -/
theorem reports_kept : ReportsKept u w home session where
  reported facts declarations declared robots_rulings other_terms ruled declares reporting retrieves stands :=
    met_reported ruled declares reporting retrieves stands
  delivered T server o rules fetched returned other stands := by
    obtain ⟨url, named, response, declarations, facts, followed, delivery⟩ := fetch_returns returned
    refine ⟨facts, _, delivery.recorded, delivery.at_, delivery.declares, fun demanded => ?_⟩
    have after := rules.after url fetched.url response named followed declarations
    obtain ⟨licences, terms, reporting⟩ := rules.backed_off (o.after declarations).1
    have unrefused := delivery.unrefused
    rw [after] at unrefused
    have ruled : (o.after declarations).1.licences = (rules.read declarations).licences ∧
        (o.after declarations).1.terms = (rules.read declarations).terms := by
      rw [after, rule_on_declarations, other, if_neg Bool.false_ne_true]
      exact ⟨rfl, rfl⟩
    have asked : Demanded (rules.read declarations) := by
      unfold Demanded Declared.governing_licences at demanded ⊢
      rw [licences, terms, ruled.1, ruled.2] at demanded
      exact demanded
    have met := unrefused_met other asked unrefused
    rw [← delivery.at_] at met stands after
    exact met_reported met delivery.declares (reporting.trans (by rw [after])) (delivers_retrieves delivery.delivers) stands

end

/-! ### A page that answered outside 2xx -/

def spelled : Urls String where
  parse := some
  is_private _ := false
  before_path url := url
  matching_url url := url
  matching_url_readings url := some [url]
  host_of _ := "source.example"
  normalised_host host := host
  robots_url_of _ := "https://source.example/robots.txt"
  posted_endpoint receiver := some (receiver ++ "/events")
  parsed_endpoint := some
  origin_of := some
  receiver_origin := some
  on_record receiver := receiver
  quoted_url url := url
  sentence_url url := url

def written : Wire where
  rfc3339 instant := toString instant
  normalise_timestamp := some
  reads _ := rfl
  cited _ _ _ := []
  observations _ _ _ := []

def agreeing : Home where
  policy := .ok ⟨[], [], fun _ => (none, false)⟩
  relay := .ok (some "https://hub.example")
  enrolment := .ok none
  consent := .agreed "2026-10-01T00:00:00Z"
  manual_marker := false
  service_running := false
  relay_loop_running := false

def desk : Session where
  policy := ⟨[], [], none, false⟩
  cwd := none
  host := "claude-code"
  client := none
  interval_relay := false
  fetch_anchor := none
  host_observations := false
  log_reads := .ok ()
  policy_file := "policy.json"
  relay_file := "relay.json"
  marker_file := "relay/manual"
  consent_file := "consent.json"
  log_file := "session.jsonl"
  home_named_in error := error

def telemetry : RslReporting := ⟨"telemetry", TELEMETRY_PROFILE, some "https://hub.example/events", some "retrieval"⟩

def demanding : Declared Unit :=
  ⟨[⟨"https://source.example/licence.xml", .robots_license, some [telemetry]⟩], none, none, [], ()⟩

def missing : FetchFacts (Declared Unit) Unit Unit :=
  { (FetchFacts.carried "https://source.example/page" : FetchFacts (Declared Unit) Unit Unit) with
    declarations := some (rule_on_declarations spelled agreeing desk [] [] "https://source.example/page" demanding).1
    http_status := some 404 }

theorem missing_unreported :
    RuledMet spelled agreeing desk missing.url demanding ∧ (crossing_record spelled written desk 0 missing).event = "crossing_mediated" ∧
      ∀ document, agreeing.policy = .ok document →
        ¬Reported spelled written document [crossing_record spelled written desk 0 missing] 0
          (crossing_record spelled written desk 0 missing) := by
  have made : rulings_made spelled agreeing desk missing.url demanding = [reporting_ruling spelled agreeing desk missing.url telemetry] := by
    rfl
  refine ⟨⟨?_, ?_⟩, rfl, ?_⟩
  · rw [made]
    exact List.cons_ne_nil _ _
  · rw [made]
    intro ruling member
    rw [List.mem_singleton.mp member]
    rfl
  · rintro document ⟨⟩ reported
    obtain ⟨event, member, _⟩ := reported.projected
    cases member

end CommonMeasure.Reporting
