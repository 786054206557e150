import Mathlib.Order.Basic

/-!
# Admission policy

What a job declares, and whether a provider, a source or a price breaches it.
-/

namespace CommonMeasure.Admission

inductive PolicyMode where
  | observe | prefer | strict
  deriving DecidableEq

inductive Ruling where
  | allowed
  | refused (reason : String)
  | allowedWithBreach (reason : String)
  deriving DecidableEq

namespace Ruling

def is_refusal : Ruling → Bool
  | .refused _ => true
  | .allowed | .allowedWithBreach _ => false

def reason : Ruling → Option String
  | .allowed => none
  | .refused reason | .allowedWithBreach reason => some reason

def breach (mode : PolicyMode) (reason : String) : Ruling :=
  match mode with
  | .strict => .refused reason
  | .prefer | .observe => .allowedWithBreach reason

end Ruling

/-! ### Jobs -/

structure HostPattern where
  host : String
  wildcard : Bool
  deriving DecidableEq

namespace HostPattern

def matches_ (pattern : HostPattern) (host : String) : Bool :=
  if host = "" then false
  else if !pattern.wildcard then host = pattern.host
  else if pattern.host = "" then true
  else host = pattern.host || ('.' :: pattern.host.toList).isSuffixOf host.toList

def as_written (pattern : HostPattern) : String :=
  if pattern.wildcard then if pattern.host = "" then "*" else "*." ++ pattern.host else pattern.host

end HostPattern

inductive AccessAction where
  | allow
  | refuse
  | requireLicence (licence : String)
  | requireMediation
  deriving DecidableEq

structure Money where
  micros : Int
  currency : String
  deriving DecidableEq

inductive Constraint where
  | allowedProvider (provider : String)
  | deniedProvider (provider : String)
  | allowedSourceProvider (provider : String)
  | allowedSourceHost (host : String)
  | deniedSourceHost (host : String)
  | requiredLicence (licence : String)
  | accessRule (host : HostPattern) (action : AccessAction)
  | maximumAcquisitionCost (amount : Money)
  | maximumContextTokens (tokens : Nat)
  deriving DecidableEq

structure ContextJob where
  policy_mode : PolicyMode
  constraints : List Constraint
  deriving DecidableEq

namespace ContextJob

variable (job : ContextJob)

def allowed_providers : List String := job.constraints.filterMap fun
  | .allowedProvider provider => some provider
  | _ => none

def denied_providers : List String := job.constraints.filterMap fun
  | .deniedProvider provider => some provider
  | _ => none

def allows_provider_sources (provider : String) : Bool :=
  .allowedSourceProvider provider ∈ job.constraints && provider ∉ job.denied_providers &&
    (job.allowed_providers.isEmpty || provider ∈ job.allowed_providers)

def allowed_source_hosts : List String := job.constraints.filterMap fun
  | .allowedSourceHost host => some host
  | _ => none

def denied_source_hosts : List String := job.constraints.filterMap fun
  | .deniedSourceHost host => some host
  | _ => none

def required_licences : List String := job.constraints.filterMap fun
  | .requiredLicence licence => some licence
  | _ => none

def maximum_acquisition_cost : Option Money := job.constraints.findSome? fun
  | .maximumAcquisitionCost amount => some amount
  | _ => none

def maximum_context_tokens : Option Nat := job.constraints.findSome? fun
  | .maximumContextTokens tokens => some tokens
  | _ => none

def access_rules : List (Nat × HostPattern × AccessAction) := job.constraints.zipIdx.filterMap fun
  | (.accessRule host action, index) => some (index, host, action)
  | _ => none

def access_rule_for (host : String) : Option (Nat × HostPattern × AccessAction) :=
  job.access_rules.find? fun rule => rule.2.1.matches_ host

end ContextJob

inductive LicenceState where
  | declared (reference : String)
  | unknown
  deriving DecidableEq

structure NativeCharge where
  amount : String
  unit : String
  deriving DecidableEq

structure AcquisitionCharge where
  money : Option Money
  native : Option NativeCharge
  deriving DecidableEq

structure Texts where
  normalised_host : String → String
  /-- `{:?}` of a string. -/
  debug : String → String
  as_decimal_string : Money → String

variable (T : Texts)

def provider_eligibility (job : ContextJob) (provider : String) : Ruling :=
  if provider ∈ job.denied_providers then .breach job.policy_mode ("The job denies provider " ++ provider ++ ".")
  else if !job.allowed_providers.isEmpty && provider ∉ job.allowed_providers then
    .breach job.policy_mode ("The job's allowed-provider list does not include " ++ provider ++ ".")
  else .allowed

/-- What the first access rule for the host says: a breach, or that it allows the host, where there is one. -/
def access_ruling (job : ContextJob) (host : String) (declared_licence : Option LicenceState) : Except Ruling Bool :=
  match job.access_rule_for host with
  | none => .ok false
  | some (index, pattern, action) =>
    let rule := "access rule " ++ toString (index + 1) ++ " (" ++ pattern.as_written ++ ")"
    match action with
    | .allow | .requireMediation => .ok true
    | .refuse => .error (.breach job.policy_mode (rule ++ " refuses host " ++ host ++ "."))
    | .requireLicence licence =>
      match declared_licence with
      | none => .ok true
      | some (.declared reference) =>
        if reference = licence then .ok true
        else
          .error (.breach job.policy_mode (rule ++ " requires licence " ++ T.debug licence ++ " for host " ++ host ++
            ", and the supplier declared " ++ T.debug reference ++ "."))
      | some .unknown =>
        .error (.breach job.policy_mode (rule ++ " requires licence " ++ T.debug licence ++ " for host " ++ host ++
          ", and no supplier declared one."))

def source_host_admission (job : ContextJob) (host : String) (provider : Option String)
    (declared_licence : Option LicenceState) : Ruling :=
  if host ∈ job.denied_source_hosts.map T.normalised_host then
    .breach job.policy_mode ("The job denies host " ++ host ++ ".")
  else
    match access_ruling T job host declared_licence with
    | .error ruling => ruling
    | .ok host_allowed_by_rule =>
      if !host_allowed_by_rule && !provider.any job.allows_provider_sources && !job.allowed_source_hosts.isEmpty &&
          host ∉ job.allowed_source_hosts.map T.normalised_host then
        .breach job.policy_mode
          (if host = "" then
            "This source has no host, and the job's allowed-host list admits only the hosts it names."
          else "Host " ++ host ++ " is outside the job's allowed-host list.")
      else .allowed

structure ContextEnvelope where
  source_url : String
  host : String
  title : Option String
  content_hash : Option String
  licence : LicenceState
  retrieval_rank : Option Nat
  text : Option (List Char)

def licence_accepted (job : ContextJob) : LicenceState → Bool
  | .declared reference => reference ∈ job.required_licences
  | .unknown => false

def source_admission_from (job : ContextJob) (envelope : ContextEnvelope) (provider : Option String) : Ruling :=
  let provider_ruling := (provider.map (provider_eligibility job)).getD .allowed
  if provider_ruling.is_refusal then provider_ruling
  else if envelope.text.isNone then .refused "The provider returned no excerpt for this result."
  else
    match source_host_admission T job envelope.host provider (some envelope.licence) with
    | .allowed =>
      if !job.required_licences.isEmpty && !licence_accepted job envelope.licence then
        .breach job.policy_mode "No supplier declared a licence this job accepts."
      else provider_ruling
    | ruling => ruling

def acquisition_cost (job : ContextJob) (charge : AcquisitionCharge) : Ruling :=
  match job.maximum_acquisition_cost with
  | none => .allowed
  | some cap =>
    match charge.money with
    | none =>
      .allowedWithBreach (match charge.native with
        | some disclosed =>
          "The provider disclosed " ++ disclosed.amount ++ " " ++ disclosed.unit ++
            ", which this runtime could not express at micro precision, so the acquisition cost cap could not be enforced."
        | none => "The provider disclosed no charge, so the acquisition cost cap could not be enforced.")
    | some observed =>
      if observed.currency ≠ cap.currency then
        .allowedWithBreach ("The charge is in " ++ observed.currency ++ " and the cap is in " ++ cap.currency ++
          "; this runtime holds no rate source.")
      else if cap.micros < observed.micros then
        .breach job.policy_mode ("The observed charge " ++ T.as_decimal_string observed ++ " " ++ observed.currency ++
          " exceeds the cap of " ++ T.as_decimal_string cap ++ " " ++ cap.currency ++ ".")
      else .allowed

def purchase_decision (job : ContextJob) (quoted : AcquisitionCharge) (trial_covered : Bool) : Ruling :=
  match job.maximum_acquisition_cost with
  | none => .allowed
  | some cap =>
    if trial_covered then .allowed
    else
      match quoted.money with
      | none =>
        .breach job.policy_mode ("The job caps acquisition cost at " ++ T.as_decimal_string cap ++ " " ++ cap.currency ++
          " and the quote is " ++ (match quoted.native with
            | some quote => quote.amount ++ " " ++ quote.unit
            | none => "no price at all") ++
          ", which the cap cannot be checked against; buying at an unverifiable price is declined rather than " ++
          "discovered on the receipt.")
      | some price =>
        if price.currency ≠ cap.currency then
          .breach job.policy_mode ("The quote is in " ++ price.currency ++ " and the cap is in " ++ cap.currency ++
            "; this runtime holds no rate source, so the cap cannot be checked before purchase.")
        else if cap.micros < price.micros then
          .breach job.policy_mode ("The quoted price " ++ T.as_decimal_string price ++ " " ++ price.currency ++
            " exceeds the cap of " ++ T.as_decimal_string cap ++ " " ++ cap.currency ++ ".")
        else .allowed

structure SourcePolicy where
  job : ContextJob
  authority : Ruling

def enforcement_mode (policy : Option SourcePolicy) (suite : ContextJob) : PolicyMode :=
  let home := policy.map fun policy => policy.job.policy_mode
  if suite.policy_mode = .strict ∨ home = some .strict then .strict
  else if suite.policy_mode = .prefer ∨ home = some .prefer then .prefer
  else .observe

def context_budget (policy : Option SourcePolicy) (suite : ContextJob) : Option Nat :=
  match suite.maximum_context_tokens, (policy.bind fun policy => policy.job.maximum_context_tokens) with
  | some a, some b => some (min a b)
  | some a, none => some a
  | none, b => b

def check_policy (policy : Option SourcePolicy) (suite : ContextJob) (check : ContextJob → Ruling) : Ruling :=
  let mode := enforcement_mode policy suite
  let own (result : Ruling) : Ruling :=
    match check { suite with policy_mode := mode } with
    | .allowed => result
    | ruling => ruling
  match policy with
  | none => own .allowed
  | some policy =>
    let ruling := if policy.authority.is_refusal then policy.authority else check { policy.job with policy_mode := mode }
    if ruling.is_refusal then ruling else own ruling

def PolicyMode.rank : PolicyMode → Nat
  | .observe => 0
  | .prefer => 1
  | .strict => 2

theorem rank_enforcement_mode (policy : Option SourcePolicy) (suite : ContextJob) :
    (enforcement_mode policy suite).rank =
      max suite.policy_mode.rank ((policy.map fun policy => policy.job.policy_mode.rank).getD 0) := by
  obtain ⟨suite_mode, _⟩ := suite
  cases policy with
  | none => cases suite_mode <;> rfl
  | some policy =>
    obtain ⟨⟨home_mode, _⟩, _⟩ := policy
    cases suite_mode <;> cases home_mode <;> rfl

theorem le_enforcement_mode (policy : Option SourcePolicy) (suite : ContextJob) :
    suite.policy_mode.rank ≤ (enforcement_mode policy suite).rank := by
  rw [rank_enforcement_mode]
  exact Nat.le_max_left _ _

theorem enforcement_mode_none (suite : ContextJob) : enforcement_mode none suite = suite.policy_mode := by
  unfold enforcement_mode
  cases suite.policy_mode <;> rfl

def Disciplined (check : ContextJob → Ruling) : Prop :=
  ∀ job mode, job.policy_mode.rank ≤ mode.rank → (check job).is_refusal = true →
    (check { job with policy_mode := mode }).is_refusal = true

theorem strict_of_le {m mode : PolicyMode} (le : m.rank ≤ mode.rank) (strict : m = .strict) : mode = .strict := by
  subst strict
  cases mode
  · exact absurd le (by decide)
  · exact absurd le (by decide)
  · rfl

theorem disciplined_of_strict {check : ContextJob → Ruling}
    (only : ∀ job, (check job).is_refusal = true → job.policy_mode = .strict) : Disciplined check := by
  intro job mode le refused
  have strict := only job refused
  have same : { job with policy_mode := mode } = job := by rw [strict_of_le le strict, ← strict]
  rw [same]
  exact refused

theorem breach_refused {mode : PolicyMode} {reason : String} (refused : (Ruling.breach mode reason).is_refusal = true) :
    mode = .strict := by
  cases mode
  · cases refused
  · cases refused
  · rfl

theorem acquisition_cost_disciplined (charge : AcquisitionCharge) :
    Disciplined fun job => acquisition_cost T job charge := by
  refine disciplined_of_strict fun job refused => ?_
  unfold acquisition_cost at refused
  split at refused
  · cases refused
  split at refused
  · cases refused
  split at refused
  · cases refused
  split at refused
  · exact breach_refused refused
  · cases refused

theorem purchase_decision_disciplined (quoted : AcquisitionCharge) (trial_covered : Bool) :
    Disciplined fun job => purchase_decision T job quoted trial_covered := by
  refine disciplined_of_strict fun job refused => ?_
  unfold purchase_decision at refused
  split at refused
  · cases refused
  split at refused
  · cases refused
  split at refused
  · exact breach_refused refused
  split at refused
  · exact breach_refused refused
  split at refused
  · exact breach_refused refused
  · cases refused

theorem provider_refused {job : ContextJob} {provider : Option String}
    (refused : ((provider.map (provider_eligibility job)).getD .allowed).is_refusal = true) : job.policy_mode = .strict := by
  cases provider with
  | none => cases refused
  | some provider =>
    rw [Option.map_some, Option.getD_some, provider_eligibility] at refused
    split at refused
    · exact breach_refused refused
    split at refused
    · exact breach_refused refused
    · cases refused

theorem host_refused {job : ContextJob} {host : String} {provider : Option String} {licence : Option LicenceState}
    (refused : (source_host_admission T job host provider licence).is_refusal = true) : job.policy_mode = .strict := by
  unfold source_host_admission at refused
  split at refused
  · exact breach_refused refused
  split at refused
  · rename_i ruling denied
    unfold access_ruling at denied
    split at denied
    · cases denied
    dsimp only at denied
    split at denied
    · cases denied
    · cases denied
    · cases denied
      exact breach_refused refused
    · split at denied
      · cases denied
      · split at denied
        · cases denied
        · cases denied
          exact breach_refused refused
      · cases denied
        exact breach_refused refused
  · split at refused
    · exact breach_refused refused
    · cases refused

theorem source_admission_textless {job : ContextJob} {envelope : ContextEnvelope} (provider : Option String)
    (textless : envelope.text = none) : (source_admission_from T job envelope provider).is_refusal = true := by
  unfold source_admission_from
  dsimp only
  split
  · assumption
  · rw [textless]
    rfl

theorem source_admission_disciplined (envelope : ContextEnvelope) (provider : Option String) :
    Disciplined fun job => source_admission_from T job envelope provider := by
  cases textless : envelope.text with
  | none => exact fun job mode _ _ => source_admission_textless T provider textless
  | some text =>
    refine disciplined_of_strict fun job refused => ?_
    unfold source_admission_from at refused
    dsimp only at refused
    split at refused
    · exact provider_refused refused
    · rename_i provided
      rw [textless] at refused
      dsimp only [Option.isNone_some] at refused
      rw [if_neg (by decide)] at refused
      split at refused
      · split at refused
        · exact breach_refused refused
        · exact absurd refused provided
      · exact host_refused T refused

theorem check_policy_refuses (policy : Option SourcePolicy) (suite : ContextJob) (check : ContextJob → Ruling) :
    (check_policy policy suite check).is_refusal = true ↔
      (∃ home ∈ policy, home.authority.is_refusal = true ∨
        (check { home.job with policy_mode := enforcement_mode policy suite }).is_refusal = true) ∨
      (check { suite with policy_mode := enforcement_mode policy suite }).is_refusal = true := by
  have own : ∀ result : Ruling, ∀ ruling : Ruling, result.is_refusal = false →
      ((match ruling with | .allowed => result | ruling => ruling).is_refusal = true ↔ ruling.is_refusal = true) := by
    intro result ruling lets
    cases ruling
    · show result.is_refusal = true ↔ false = true
      rw [lets]
    · rfl
    · rfl
  unfold check_policy
  cases policy with
  | none => simpa using own .allowed _ rfl
  | some home =>
    simp only [Option.mem_def, Option.some.injEq, exists_eq_left']
    by_cases authority : home.authority.is_refusal = true
    · simp [authority]
    · simp only [authority, if_false, false_or, Bool.false_eq_true]
      split
      · rename_i refused
        simp [refused]
      · rename_i allows
        rw [own _ _ (Bool.not_eq_true _ ▸ allows)]
        simp [allows]

theorem check_policy_alone {policy : Option SourcePolicy} {suite : ContextJob} {check : ContextJob → Ruling}
    (disciplined : Disciplined check) (refused : (check_policy none suite check).is_refusal = true) :
    (check_policy policy suite check).is_refusal = true := by
  rw [check_policy_refuses, enforcement_mode_none] at refused
  obtain ⟨_, none, _⟩ | refused := refused
  · cases none
  · exact (check_policy_refuses policy suite check).mpr
      (.inr (disciplined suite _ (le_enforcement_mode policy suite) refused))

end CommonMeasure.Admission
