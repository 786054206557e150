import CommonMeasure.Reporting.Egress

namespace CommonMeasure.Reporting

open Mediation (FetchFacts Spoken)

variable {Url : Type} {u : Urls Url} {w : Wire} {home : Home} {session : Session} {B R I : Type}

/-! ### Prefixes -/

theorem under_append {readings : Option (List String)} {page : String} (before after : List String) :
    under_a_prefix u readings page (before ++ after) = ( under_a_prefix u readings page before || under_a_prefix u readings page after) := by
  unfold under_a_prefix
  cases readings <;> simp only [List.any_append]

theorem matches_append (raw : String) (before after : List String) :
    matches_internal_prefix u raw (before ++ after) = ( matches_internal_prefix u raw before || matches_internal_prefix u raw after) := by
  unfold matches_internal_prefix
  cases u.parse raw with
  | none => rfl
  | some parsed => simp only [List.filterMap_append, List.map_append, under_append]

theorem projectable_append {raw : String} {before after : List String} (projects : projectable u raw (before ++ after) = true) :
    matches_internal_prefix u raw before = false ∧ projectable u raw after = true := by
  unfold projectable at projects ⊢
  rw [matches_append, Bool.and_eq_true, Bool.not_eq_true', Bool.or_eq_false_iff] at projects
  obtain ⟨records, apart, still⟩ := projects
  exact ⟨apart, by rw [records, still]; rfl⟩

structure Deliverable (u : Urls Url) (home : Home) (session : Session) (document : PolicyDocument) (url : String) : Prop where
  policy : home.policy = .ok document
  projects : projectable u url (session.policy.record_internal_prefixes ++ document.record_internal_prefixes) = true
  unheld : access_context_terms u document session.cwd (u.host_of url) = none
  unanchored : anchor_terms u document session.cwd (u.host_of url) = none

theorem or_none {α : Type} {first second : Option α} (none_ : (first <|> second) = none) : first = none ∧ second = none := by
  cases first with
  | none => exact ⟨rfl, none_⟩
  | some value => cases none_

theorem deliverable_of_none {url : String} {route : Option (Except (String × Mediation.AgentText) ReportingRoute)}
    (none_ : undeliverable u home session url route = none) : ∃ document, Deliverable u home session document url := by
  unfold undeliverable at none_
  simp only at none_
  split at none_
  · cases none_
  split at none_
  · cases none_
  · rename_i projects
    rw [Bool.not_eq_true, Bool.not_eq_false'] at projects
    split at none_
    · cases none_
    · cases none_
    · cases none_
    · cases none_
    · rename_i resolved _ current_ _ _
      cases policy : home.policy with
      | error error =>
        rw [current, policy] at current_
        cases current_
      | ok document =>
        rw [internal_prefixes, current, policy] at projects
        obtain ⟨access, none_⟩ := or_none (or_none none_).2
        obtain ⟨anonymous, _⟩ := or_none none_
        rw [access_context_hold, policy] at access
        rw [anonymous_hold, policy] at anonymous
        exact ⟨document, policy, projects, Option.map_eq_none_iff.mp access, Option.map_eq_none_iff.mp anonymous⟩

structure RuledFor (u : Urls Url) (home : Home) (session : Session) (url : String) (ruling : ReportingRuling) : Prop where
  consent : ruling.consent = some home.consent.on_record
  met : ruling.met = true → (∃ document, Deliverable u home session document url) ∧ home.consent.state = "agreed"
  reason : ruling.met = ruling.reason.isNone

theorem unmet_breaches {url : String} {ruling : ReportingRuling} (ruled : RuledFor u home session url ruling)
    (unmet : ruling.met = false) :
    ∃ reason, ruling.reason = some reason := by
  rw [ruled.reason] at unmet
  cases is : ruling.reason with
  | none => rw [is] at unmet; cases unmet
  | some reason => exact ⟨reason, rfl⟩

variable [DecidableEq Url]

theorem met_for {url : String} {profile level endpoint : Option String} {source : Option ReportingSource}
    (met : (reporting_ruling_for u home session url profile level endpoint source).met = true) :
    (∃ document, Deliverable u home session document url) ∧ home.consent.state = "agreed" := by
  simp only [reporting_ruling_for, Option.isNone_iff_eq_none] at met
  obtain ⟨sent, consent⟩ := or_none met
  refine ⟨deliverable_of_none sent, ?_⟩
  rw [consent_reason, Option.map_eq_none_iff] at consent
  cases standing : home.consent with
  | agreed at_ => rfl
  | not_given => rw [standing] at consent; cases consent
  | withdrawn at_ => rw [standing] at consent; cases consent
  | unreadable error => rw [standing] at consent; cases consent

theorem ruled_for {url : String} {profile level endpoint : Option String} {source : Option ReportingSource} :
    RuledFor u home session url (reporting_ruling_for u home session url profile level endpoint source) :=
  ⟨rfl, met_for, by simp [reporting_ruling_for]⟩

theorem ruled_demand {url : String} {demand : RslReporting} : RuledFor u home session url (reporting_ruling u home session url demand) := by
  have ruled := @ruled_for _ u home session _ url (some demand.profile) demand.conformance_level demand.endpoint none
  unfold reporting_ruling
  simp only
  split
  · exact ⟨ruled.consent, fun met => (nomatch met), rfl⟩
  · exact ⟨ruled.consent, fun met => ruled.met (ruled.reason.trans met), rfl⟩

structure DemandRuled (u : Urls Url) (home : Home) (session : Session) (url : String)
    (ruled : Option ReportingRuling × Option Spoken) :
    Prop where
  made : ∀ ruling, ruled.1 = some ruling → RuledFor u home session url ruling
  unmade : ruled.1 = none → ∃ breach, ruled.2 = some breach ∧ breach.refused.isSome = true
  unmet : ∀ ruling, ruled.1 = some ruling → ruling.met = false → ∃ breach, ruled.2 = some breach ∧ breach.refused.isSome = true

theorem demand_ruled {url : String} {licence : LicenceOutcome} {demand : RslReporting} :
    DemandRuled u home session url (licence_demand u home session url licence demand) := by
  unfold licence_demand
  split
  · exact ⟨fun _ is => (nomatch is), fun _ => ⟨_, rfl, rfl⟩, fun _ is => (nomatch is)⟩
  · refine ⟨?_, fun is => (nomatch is), ?_⟩
    · rintro ruling ⟨⟩
      exact ruled_demand
    · rintro ruling ⟨⟩ unmet
      obtain ⟨reason, is⟩ := unmet_breaches ruled_demand unmet
      simp only [unmet_demand, is, Option.map_some]
      split <;> exact ⟨_, rfl, rfl⟩

theorem agreement_ruled {url : String} {agreement : Agreement} :
    DemandRuled u home session url (agreement_demand u home session url agreement) := by
  have ruled := @ruled_for _ u home session _ url none none none (some .operator_agreement)
  refine ⟨?_, fun is => (nomatch is), ?_⟩
  · rintro ruling ⟨⟩
    exact ⟨ruled.consent, ruled.met, ruled.reason⟩
  · rintro ruling ⟨⟩ unmet
    obtain ⟨reason, is⟩ := unmet_breaches ruled unmet
    simp only [agreement_demand, unmet_agreement, is, Option.map_some]
    split <;> exact ⟨_, rfl, rfl⟩

theorem demands_ruled {url : String} {declarations : Declared B} :
    ∀ ruled ∈ demands u home session url declarations, DemandRuled u home session url ruled := by
  intro ruled member
  rcases List.mem_append.mp member with licensed | agreed
  · obtain ⟨licence, _, here⟩ := List.mem_flatMap.mp licensed
    obtain ⟨demand, _, rfl⟩ := List.mem_map.mp here
    exact demand_ruled
  · obtain ⟨agreement, _, rfl⟩ := Option.map_eq_some_iff.mp (Option.mem_toList.mp agreed)
    exact agreement_ruled

theorem made_ruled {url : String} {declarations : Declared B} :
    ∀ ruling ∈ rulings_made u home session url declarations, RuledFor u home session url ruling := by
  intro ruling member
  unfold rulings_made at member
  split at member
  · cases member
  · obtain ⟨ruled, inside, is⟩ := List.mem_filterMap.mp member
    exact (demands_ruled ruled inside).made ruling is

theorem recorded_ruling {url : String} {declarations : Declared B} {robots_rulings other_terms : List Spoken}
    (made : rulings_made u home session url declarations ≠ [])
    (met : ∀ ruling ∈ rulings_made u home session url declarations, ruling.met = true) :
    ∃ ruling, (rule_on_declarations u home session robots_rulings other_terms url declarations).1.reporting = some ruling ∧
      ruling.met = true ∧ RuledFor u home session url ruling := by
  have other : ¬is_its_own_robots u url = true := by
    intro own
    exact made (if_pos own)
  have last := List.getLast?_eq_some_getLast made
  have member := List.getLast_mem made
  generalize (rulings_made u home session url declarations).getLast made = ruling at last member
  refine ⟨ruling, ?_, met ruling member, made_ruled ruling member⟩
  have unfound : (rulings_made u home session url declarations).find? (!·.met) = none := by
    rw [List.find?_eq_none]
    intro other inside
    rw [met other inside]
    exact Bool.false_ne_true
  unfold rule_on_declarations
  rw [if_neg other]
  simp only [unfound]
  exact last

structure Reported (u : Urls Url) (w : Wire) (document : PolicyDocument) (records : List Record) (position : Nat)
    (record : Record) :
    Prop where
  cleared : (clearance document record).isSome = true
  unheld : held_for_access_context u document record = none
  projected : ∃ event ∈ project_session u w records (document.resolve none).record_internal_prefixes (may_project u document records),
    event.position = position

structure Sendable (u : Urls Url) (w : Wire) (document : PolicyDocument) (record : Record) : Prop where
  event : record.event = "crossing_mediated"
  cleared : (clearance document record).isSome = true
  unheld : held_for_access_context u document record = none
  timed : ∃ instant, record.payload.timestamp = some (w.rfc3339 instant)
  at_ : ∃ url, record.payload.url = some url ∧ projectable u url document.record_internal_prefixes = true
  public_ : record.payload.internal = false
  retrieved : record.payload.retrieved_nothing = false

omit [DecidableEq Url] in
theorem retrieval_kept {events : List WireEvent} {event : WireEvent} (member : event ∈ events)
    (retrieved : event.kind = .content_retrieved) :
    event ∈ if events.any (·.kind = .content_retrieved) then events else [] := by
  rw [if_pos (List.any_eq_true.mpr ⟨event, member, decide_eq_true retrieved⟩)]
  exact member

omit [DecidableEq Url] in
theorem sendable_reported {document : PolicyDocument} {record : Record} (sendable : Sendable u w document record)
    (before after : List Record) : Reported u w document (before ++ record :: after) before.length record := by
  refine ⟨sendable.cleared, sendable.unheld, ?_⟩
  have here : (before ++ record :: after)[before.length]? = some record := by simp
  have projects : may_project u document (before ++ record :: after) before.length = true := by
    rw [may_project, here, Option.any_some, sendable.cleared, sendable.unheld]
    rfl
  obtain ⟨instant, timed⟩ := sendable.timed
  obtain ⟨url, at_, projectable_⟩ := sendable.at_
  obtain ⟨written, reads⟩ := Option.isSome_iff_exists.mp (w.reads instant)
  have retrieved : (⟨.content_retrieved, before.length⟩ : WireEvent) ∈ record_events u w (before ++ record :: after)
      (document.resolve none).record_internal_prefixes (may_project u document (before ++ record :: after)) before.length record := by
    have crossing : crossing_events u w (before ++ record :: after) (document.resolve none).record_internal_prefixes
        (may_project u document (before ++ record :: after)) before.length record.payload =
          ⟨.content_retrieved, before.length⟩ :: (if record.payload.host_required then
            (w.observations (before ++ record :: after) before.length (may_project u document (before ++ record :: after))).map
              fun _ => ⟨.content_grounded, before.length⟩
            else if record.payload.grounded then [⟨.content_grounded, before.length⟩] else []) := by
      unfold crossing_events
      rw [at_, timed, Option.bind_some, reads]
      simp only [sendable.public_, sendable.retrieved, PolicyDocument.resolve, projectable_, Bool.not_true, Bool.or_self,
        Bool.false_eq_true, if_false]
    simp only [record_events, Record.is_turn_boundary, Record.is_witnessed, sendable.event, projects, crossing]
    simp
  have member : (⟨.content_retrieved, before.length⟩ : WireEvent) ∈ (before ++ record :: after).zipIdx.flatMap fun entry =>
      record_events u w (before ++ record :: after) (document.resolve none).record_internal_prefixes
        (may_project u document (before ++ record :: after)) entry.2 entry.1 := by
    refine List.mem_flatMap.mpr ⟨(record, before.length), ?_, retrieved⟩
    rw [List.mem_zipIdx_iff_getElem?]
    exact here
  refine ⟨⟨.content_retrieved, before.length⟩, ?_, rfl⟩
  exact retrieval_kept member rfl

structure Retrieves (facts : FetchFacts (Declared B) R I) : Prop where
  unrefused : facts.refusal = none
  reached : facts.failure = none
  success : ∀ status, facts.http_status = some status → 200 ≤ status ∧ status < 300

omit [DecidableEq Url] in
theorem crossing_sendable {document : PolicyDocument} {facts : FetchFacts (Declared B) R I} {ruling : ReportingRuling}
    {declared : Declared B} (deliverable : Deliverable u home session document facts.url) (retrieves : Retrieves facts)
    (declares : facts.declarations = some declared) (reporting : declared.reporting = some ruling) (met : ruling.met = true)
    (ruled : RuledFor u home session facts.url ruling) (unanchored : session.fetch_anchor = none) (timestamp : Int) :
    Sendable u w document (crossing_record u w session timestamp facts) := by
  have agreed := (ruled.met met).2
  have prefixes := projectable_append deliverable.projects
  have event : (crossing_record u w session timestamp facts).event = "crossing_mediated" := by
    simp [crossing_record, retrieves.unrefused]
  refine ⟨event, ?_, ?_, ⟨timestamp, rfl⟩, ⟨facts.url, rfl, prefixes.2⟩, prefixes.1, ?_⟩
  · have witnessed : (crossing_record u w session timestamp facts).is_witnessed = true := by
      simp [Record.is_witnessed, event]
    have consented : (crossing_record u w session timestamp facts).reported_under_consent = true := by
      rw [Record.reported_under_consent, witnessed]
      simp [crossing_record, declares, reporting, met, ruled.consent, Standing.on_record, agreed]
    have named : (crossing_record u w session timestamp facts).under_anonymous_profile = false := by
      simp [Record.under_anonymous_profile, crossing_record, unanchored]
    unfold clearance
    rw [witnessed, named, consented]
    simp
  · unfold held_for_access_context
    split
    · rfl
    · exact deliverable.unheld
  · show (facts.failure.isSome || facts.http_status.any fun status => !(200 ≤ status && status < 300)) = false
    rw [retrieves.reached]
    cases status : facts.http_status with
    | none => rfl
    | some status_ =>
      obtain ⟨least, most⟩ := retrieves.success status_ status
      simp [least, most]

end CommonMeasure.Reporting
