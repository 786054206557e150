import CommonMeasure.Reporting.Ruled

/-!
# What binds in every mode

The source's terms refuse alike in every policy mode, and refuse exactly where one of them is not met.
-/

namespace CommonMeasure.Reporting

open Admission (PolicyMode)
open Mediation (Spoken)

variable {Url : Type} {u : Urls Url} {home : Home} {session : Session} {wording : Wording}
  {admit_host : PolicyMode → String → Spoken} {url : String} {events : List BackoffEvent} {declarations : Ruled}

def Refuses (spoken : Spoken) : Prop := spoken.ruling.is_refusal = true

instance (spoken : Spoken) : Decidable (Refuses spoken) := by
  unfold Refuses
  infer_instance

@[simp] theorem binding_breach_refuses (reason agent_reason : String) : Refuses (binding_breach reason agent_reason) := rfl

/-! ### Each refusal -/

theorem access_refuses (events : List BackoffEvent) (robots : Declarations.RobotsOutcome) :
    Refuses (access_refusal u wording events robots) := by
  unfold access_refusal
  dsimp only
  split <;> rfl

theorem breach_admits {mode : PolicyMode} {robots : Declarations.RobotsOutcome} {spoken : Spoken}
    (breach : robots_redirect_breach u admit_host mode robots = some spoken) : ¬Refuses spoken := by
  unfold robots_redirect_breach at breach
  dsimp only at breach
  split at breach
  · cases breach
  · split at breach
    · cases breach
    · split at breach
      · cases breach
      · split at breach
        · cases breach
          simp [Refuses, Admission.Ruling.is_refusal]
        · cases breach

theorem settlement_refuses {licence : LicenceRead} {terms : Declarations.LicenceTerms} {spoken : Spoken}
    (due : settlement_refusal u wording licence terms = some spoken) : Refuses spoken := by
  unfold settlement_refusal at due
  split at due
  · cases due
    rfl
  · obtain ⟨server, _, same⟩ := Option.map_eq_some_iff.mp due
    rw [← same]
    rfl

theorem term_refuses {spoken : Spoken} (made : spoken ∈ term_rulings u wording events declarations) : Refuses spoken := by
  unfold term_rulings at made
  rcases List.mem_append.mp made with unread | other
  · obtain ⟨licence, _, rfl⟩ := List.mem_map.mp unread
    rfl
  · split at other
    · rw [List.mem_singleton] at other
      rw [other]
      rfl
    · obtain ⟨⟨licence, terms⟩, _, due⟩ := List.mem_filterMap.mp other
      exact settlement_refuses due

variable [DecidableEq Url]

theorem licence_demand_refuses {licence : LicenceOutcome} {demand : RslReporting} {spoken : Spoken}
    (made : (licence_demand u home session url licence demand).2 = some spoken) : Refuses spoken := by
  unfold licence_demand at made
  split at made
  · cases made
    rfl
  · obtain ⟨reason, _, same⟩ := Option.map_eq_some_iff.mp made
    split at same <;> rw [← same] <;> rfl

theorem agreement_demand_refuses {agreement : Agreement} {spoken : Spoken}
    (made : (agreement_demand u home session url agreement).2 = some spoken) : Refuses spoken := by
  obtain ⟨reason, _, same⟩ := Option.map_eq_some_iff.mp made
  split at same <;> rw [← same] <;> rfl

theorem mem_demands {declared : Declared Unit} {made : Option ReportingRuling × Option Spoken} :
    made ∈ demands u home session url declared ↔
      (∃ pair ∈ declared.governing_licences, ∃ demand ∈ pair.2, licence_demand u home session url pair.1 demand = made) ∨
        ∃ agreement, declared.terms = some agreement ∧ agreement.requires_reporting = true ∧
          agreement_demand u home session url agreement = made := by
  unfold demands
  rw [List.mem_append, List.mem_flatMap, Option.mem_toList, Option.map_eq_some_iff]
  simp only [List.mem_map, Option.filter_eq_some_iff, and_assoc]

theorem demand_refuses {declared : Declared Unit} {spoken : Spoken}
    (made : spoken ∈ (demands u home session url declared).filterMap (·.2)) : Refuses spoken := by
  obtain ⟨both, listed, same⟩ := List.mem_filterMap.mp made
  rcases mem_demands.mp listed with ⟨pair, _, demand, _, rfl⟩ | ⟨agreement, _, _, rfl⟩
  · exact licence_demand_refuses same
  · exact agreement_demand_refuses same

theorem reporting_ruling_met (demand : RslReporting) :
    (reporting_ruling u home session url demand).met = (reporting_ruling u home session url demand).reason.isNone := by
  unfold reporting_ruling
  dsimp only
  split <;> rfl

theorem licence_demand_unmet (licence : LicenceOutcome) (demand : RslReporting) :
    (licence_demand u home session url licence demand).2.isSome ↔
      demand.kind ≠ "telemetry" ∨ (reporting_ruling u home session url demand).met = false := by
  unfold licence_demand
  split
  · rename_i other
    simp [other]
  · rename_i telemetry
    rw [reporting_ruling_met]
    generalize reporting_ruling u home session url demand = ruling
    unfold unmet_demand
    cases stated : ruling.reason <;> simp [not_not.mp telemetry, stated]

theorem agreement_demand_unmet (agreement : Agreement) :
    (agreement_demand u home session url agreement).2.isSome ↔
      (reporting_ruling_for u home session url none none none (some .operator_agreement)).met = false := by
  unfold agreement_demand unmet_agreement reporting_ruling_for
  dsimp only
  generalize (undeliverable u home session url _ <|> consent_reason home session) = told
  cases told <;> simp

theorem governing_declared (declarations : Ruled) :
    declarations.declared.governing_licences = declarations.governing_licences.map fun (licence, terms) =>
      (read_for_reporting licence, terms.reporting.map demand_of) := by
  have ranked (mechanism : Declarations.LicenceMechanism) :
      (declarations.declared.licences.filter (·.mechanism = mechanism_of mechanism)).filterMap
          (fun licence => licence.terms.map (licence, ·)) =
        ((declarations.licences.filter (·.mechanism = mechanism)).filterMap fun licence => licence.terms.map (licence, ·)).map
          fun (licence, terms) => (read_for_reporting licence, terms.reporting.map demand_of) := by
    unfold Ruled.declared
    dsimp only
    induction declarations.licences with
    | nil => rfl
    | cons licence rest ih =>
      have same : (read_for_reporting licence).mechanism = mechanism_of mechanism ↔ licence.mechanism = mechanism := by
        unfold read_for_reporting
        cases licence.mechanism <;> cases mechanism <;> simp [mechanism_of]
      have terms_ : (read_for_reporting licence).terms = licence.terms.map fun terms => terms.reporting.map demand_of := rfl
      simp only [List.map_cons, List.filter_cons, same]
      by_cases here : licence.mechanism = mechanism
      · simp only [here, decide_true, if_true]
        cases terms : licence.terms with
        | none => simpa [List.filterMap_cons, terms_, terms] using ih
        | some terms' => simpa [List.filterMap_cons, terms_, terms] using ih
      · simpa [here] using ih
  have page : (declarations.declared.licences.filter (·.mechanism = .link_header)).filterMap
      (fun licence => licence.terms.map (licence, ·)) = _ := ranked .link_header
  have robots : (declarations.declared.licences.filter (·.mechanism = .robots_license)).filterMap
      (fun licence => licence.terms.map (licence, ·)) = _ := ranked .robots_license
  unfold Declared.governing_licences Ruled.governing_licences
  simp only [page, robots, List.isEmpty_map]
  split <;> rfl

def Unreported (u : Urls Url) (home : Home) (session : Session) (url : String) (declarations : Ruled) : Prop :=
  (∃ pair ∈ declarations.governing_licences, ∃ reporting ∈ pair.2.reporting,
    (demand_of reporting).kind ≠ "telemetry" ∨ (reporting_ruling u home session url (demand_of reporting)).met = false) ∨
  ∃ agreement, declarations.terms = some agreement ∧ agreement.requires_reporting = true ∧
    (reporting_ruling_for u home session url none none none (some .operator_agreement)).met = false

theorem demands_refuse :
    (∃ spoken, spoken ∈ (demands u home session url declarations.declared).filterMap (·.2)) ↔
      Unreported u home session url declarations := by
  unfold Unreported
  constructor
  · rintro ⟨spoken, made⟩
    obtain ⟨both, listed, same⟩ := List.mem_filterMap.mp made
    rcases mem_demands.mp listed with ⟨pair, governs, demand, among, rfl⟩ | ⟨agreement, agreed, requires, rfl⟩
    · rw [governing_declared] at governs
      obtain ⟨⟨licence, terms⟩, governing, rfl⟩ := List.mem_map.mp governs
      obtain ⟨reporting, stated, rfl⟩ := List.mem_map.mp among
      refine Or.inl ⟨(licence, terms), governing, reporting, stated, ?_⟩
      rw [← licence_demand_unmet, same]
      rfl
    · refine Or.inr ⟨agreement, agreed, requires, ?_⟩
      rw [← agreement_demand_unmet agreement, same]
      rfl
  · rintro (⟨⟨licence, terms⟩, governs, reporting, stated, unmet⟩ | ⟨agreement, agreed, requires, unmet⟩)
    · have breached := (licence_demand_unmet (read_for_reporting licence) (demand_of reporting)).mpr unmet
      obtain ⟨spoken, same⟩ := Option.isSome_iff_exists.mp breached
      have governing : (read_for_reporting licence, terms.reporting.map demand_of) ∈ declarations.declared.governing_licences := by
        rw [governing_declared]
        exact List.mem_map_of_mem governs
      have listed : licence_demand u home session url (read_for_reporting licence) (demand_of reporting) ∈
          demands u home session url declarations.declared :=
        mem_demands.mpr (Or.inl ⟨_, governing, _, List.mem_map_of_mem stated, rfl⟩)
      exact ⟨spoken, List.mem_filterMap.mpr ⟨_, listed, same⟩⟩
    · have breached := (agreement_demand_unmet agreement).mpr unmet
      obtain ⟨spoken, same⟩ := Option.isSome_iff_exists.mp breached
      have listed : agreement_demand u home session url agreement ∈ demands u home session url declarations.declared :=
        mem_demands.mpr (Or.inr ⟨agreement, agreed, requires, rfl⟩)
      exact ⟨spoken, List.mem_filterMap.mpr ⟨_, listed, same⟩⟩

/-- `robots.txt` disallows, or was not reached or read and no copy of it is held. -/
def Barred (robots : Declarations.RobotsOutcome) : Prop :=
  match robots.reading with
  | some reading => reading.crawlable = some false
  | none => robots.unreachable = true ∨ robots.cut_short = true

omit [DecidableEq Url] in
theorem barred_iff (robots : Declarations.RobotsOutcome) (mode : PolicyMode) :
    (robots.rule mode).refuses = true ↔ Barred robots := by
  unfold Declarations.RobotsOutcome.refuses Declarations.RobotsOutcome.rule Declarations.RobotsOutcome.ruling Barred
  dsimp only
  cases robots.reading with
  | some reading => by_cases barred : reading.crawlable = some false <;> simp [barred]
  | none => cases robots.unreachable <;> cases robots.cut_short <;> simp

def Unsettled (declarations : Ruled) : Prop :=
  ∃ pair ∈ declarations.governing_licences,
    (pair.2.offer.isSome = true ∧ ∃ payment, pair.2.payment = some payment ∧ payment.needs_settlement = true) ∨
      pair.2.server.isSome = true

omit [DecidableEq Url] in
theorem settlement_due (licence : LicenceRead) (terms : Declarations.LicenceTerms) :
    (settlement_refusal u wording licence terms).isSome ↔
      (terms.offer.isSome = true ∧ ∃ payment, terms.payment = some payment ∧ payment.needs_settlement = true) ∨
        terms.server.isSome = true := by
  have due : (payment_due terms).isSome ↔
      terms.offer.isSome = true ∧ ∃ payment, terms.payment = some payment ∧ payment.needs_settlement = true := by
    unfold payment_due
    cases terms.payment with
    | none => simp
    | some payment => cases offered : terms.offer <;> simp [Option.isSome_filter]
  unfold settlement_refusal
  rw [← due]
  cases payment_due terms <;> simp

omit [DecidableEq Url] in
theorem terms_refuse :
    (∃ spoken, spoken ∈ term_rulings u wording events declarations) ↔
      (∃ licence ∈ declarations.licences, licence.unread = true) ∨ declarations.ai_input = .Disallow ∨
        Unsettled declarations := by
  unfold term_rulings
  simp only [List.mem_append, exists_or, List.mem_map, List.mem_filter]
  apply or_congr
  · constructor
    · rintro ⟨_, licence, unread, _⟩
      exact ⟨licence, unread⟩
    · rintro ⟨licence, unread⟩
      exact ⟨_, licence, unread, rfl⟩
  · split
    · rename_i disallowed
      simp [disallowed]
    · rename_i permitted
      simp only [permitted, false_or, List.mem_filterMap]
      constructor
      · rintro ⟨spoken, ⟨licence, terms⟩, governs, same⟩
        exact ⟨_, governs, (settlement_due licence terms).mp (Option.isSome_of_eq_some same)⟩
      · rintro ⟨⟨licence, terms⟩, governs, unmet⟩
        obtain ⟨spoken, same⟩ := Option.isSome_iff_exists.mp ((settlement_due licence terms).mpr unmet)
        exact ⟨spoken, _, governs, same⟩

theorem rule_on_rulings (mode : PolicyMode) :
    (rule_on u home session wording admit_host mode url events declarations).2 =
      (if (declarations.robots.rule mode).refuses then [access_refusal u wording events declarations.robots] else []) ++
        (robots_redirect_breach u admit_host mode declarations.robots).toList ++
        if is_its_own_robots u url then []
        else term_rulings u wording events declarations ++
          (demands u home session url declarations.declared).filterMap (·.2) := by
  unfold rule_on rule_on_declarations robots_rulings
  dsimp only
  by_cases own : is_its_own_robots u url = true
  · simp [own]
  · simp [own, List.append_assoc]

theorem refuses_same_mode (mode other : PolicyMode) :
    (declarations.robots.rule mode).refuses = (declarations.robots.rule other).refuses := by
  rw [Bool.eq_iff_iff, barred_iff, barred_iff]

omit [DecidableEq Url] in
theorem breach_filtered (mode : PolicyMode) (robots : Declarations.RobotsOutcome) :
    ((robots_redirect_breach u admit_host mode robots).toList).filter (Refuses ·) = [] := by
  rw [List.filter_eq_nil_iff]
  intro spoken breach refuses
  exact breach_admits (Option.mem_toList.mp breach) (of_decide_eq_true refuses)

/-- A source's terms bind alike in every mode and refuse where one of them is not met, and in no other case. -/
theorem source_terms_bind (u : Urls Url) (home : Home) (session : Session) (wording : Wording)
    (admit_host : PolicyMode → String → Spoken) (url : String) (events : List BackoffEvent) (declarations : Ruled) :
    let rule_on (mode : PolicyMode) := rule_on u home session wording admit_host mode url events declarations
    (∀ mode other, (rule_on mode).2.filter (Refuses ·) = (rule_on other).2.filter (Refuses ·) ∧
      (rule_on mode).1.reporting = (rule_on other).1.reporting ∧
      (rule_on mode).1.reporting_demands = (rule_on other).1.reporting_demands) ∧
    (∃ before after, ∀ mode,
      (rule_on mode).2 = before ++ (robots_redirect_breach u admit_host mode declarations.robots).toList ++ after ∧
      ∀ breach ∈ robots_redirect_breach u admit_host mode declarations.robots, ¬Refuses breach) ∧
    (∀ mode, (∃ spoken ∈ (rule_on mode).2, Refuses spoken) ↔
      Barred declarations.robots ∨ is_its_own_robots u url = false ∧
        ((∃ licence ∈ declarations.licences, licence.unread = true) ∨ declarations.ai_input = .Disallow ∨
          Unsettled declarations ∨ Unreported u home session url declarations)) ∧
    ∀ mode, (∃ ruling ∈ rulings_made u home session url declarations.declared, ruling.met = false) →
      ∃ ruling, (rule_on mode).1.reporting = some ruling ∧ ruling.met = false := by
  intro rule_on_
  have reporting (mode other : PolicyMode) : (rule_on_ mode).1.reporting = (rule_on_ other).1.reporting ∧
      (rule_on_ mode).1.reporting_demands = (rule_on_ other).1.reporting_demands := by
    unfold rule_on_ rule_on rule_on_declarations
    dsimp only
    by_cases own : is_its_own_robots u url = true
    · simp [own]
    · simp [own]
  refine ⟨?_, ?_, ?_, ?_⟩
  · intro mode other
    refine ⟨?_, reporting mode other⟩
    unfold rule_on_
    rw [rule_on_rulings, rule_on_rulings, refuses_same_mode mode other]
    simp only [List.filter_append, breach_filtered]
  · refine ⟨if (declarations.robots.rule .observe).refuses then [access_refusal u wording events declarations.robots] else [],
      if is_its_own_robots u url then []
      else term_rulings u wording events declarations ++
        (demands u home session url declarations.declared).filterMap (·.2),
      fun mode => ⟨?_, fun breach made => breach_admits made⟩⟩
    unfold rule_on_
    rw [rule_on_rulings, refuses_same_mode mode .observe]
  · intro mode
    unfold rule_on_
    rw [rule_on_rulings]
    constructor
    · rintro ⟨spoken, made, refuses⟩
      rw [List.append_assoc] at made
      rcases List.mem_append.mp made with access | rest
      · left
        split at access
        · rename_i barred
          exact (barred_iff _ _).mp barred
        · cases access
      · rcases List.mem_append.mp rest with breach | later
        · exact (breach_admits (Option.mem_toList.mp breach) refuses).elim
        · right
          split at later
          · cases later
          · rename_i content
            refine ⟨by simpa using content, ?_⟩
            rcases List.mem_append.mp later with term | demand
            · rcases terms_refuse.mp ⟨spoken, term⟩ with unread | disallowed | unsettled
              · exact Or.inl unread
              · exact Or.inr (Or.inl disallowed)
              · exact Or.inr (Or.inr (Or.inl unsettled))
            · exact Or.inr (Or.inr (Or.inr (demands_refuse.mp ⟨spoken, demand⟩)))
    · rintro (barred | ⟨content, unmet⟩)
      · refine ⟨access_refusal u wording events declarations.robots, ?_, access_refuses events _⟩
        rw [if_pos ((barred_iff _ mode).mpr barred)]
        simp
      · have made : ∃ spoken, spoken ∈ term_rulings u wording events declarations ++
            (demands u home session url declarations.declared).filterMap (·.2) := by
          rcases unmet with unread | disallowed | unsettled | unreported
          · obtain ⟨spoken, made⟩ := terms_refuse.mpr (Or.inl unread)
            exact ⟨spoken, List.mem_append_left _ made⟩
          · obtain ⟨spoken, made⟩ := terms_refuse.mpr (Or.inr (Or.inl disallowed))
            exact ⟨spoken, List.mem_append_left _ made⟩
          · obtain ⟨spoken, made⟩ := terms_refuse.mpr (Or.inr (Or.inr unsettled))
            exact ⟨spoken, List.mem_append_left _ made⟩
          · obtain ⟨spoken, made⟩ := demands_refuse.mpr unreported
            exact ⟨spoken, List.mem_append_right _ made⟩
        obtain ⟨spoken, made⟩ := made
        refine ⟨spoken, ?_, ?_⟩
        · rw [content, if_neg Bool.false_ne_true]
          exact List.mem_append_right _ made
        · rcases List.mem_append.mp made with term | demand
          · exact term_refuses term
          · exact demand_refuses demand
  · intro mode
    rintro ⟨ruling, made, unmet⟩
    unfold rule_on_ rule_on rule_on_declarations
    by_cases own : is_its_own_robots u url = true
    · rw [rulings_made, if_pos own] at made
      cases made
    · rw [if_neg own]
      dsimp only
      have found : ((rulings_made u home session url declarations.declared).find? (!·.met)).isSome := by
        rw [List.find?_isSome]
        exact ⟨ruling, made, by simp [unmet]⟩
      obtain ⟨first, is⟩ := Option.isSome_iff_exists.mp found
      refine ⟨first, by rw [is]; rfl, ?_⟩
      have failed := List.find?_some is
      simpa using failed

end CommonMeasure.Reporting
