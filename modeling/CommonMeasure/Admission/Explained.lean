import CommonMeasure.Admission.Job

namespace CommonMeasure.Admission.Explained

inductive GapReason where
  | providerUnavailable | capabilityUnavailable | policyRefused | budgetExhausted | evidenceMissing | coverageGap
  | inferenceUnavailable | writeFailed
  deriving DecidableEq

structure Gap where
  reason : GapReason
  detail : String
  deriving DecidableEq

structure Breach where
  reason : String
  agent_reason : String
  gap : Gap
  deriving DecidableEq

inductive Verdict where
  | allowed
  | refused (breach : Breach)
  | allowedWithBreach (breach : Breach)
  deriving DecidableEq

namespace Verdict

def is_refusal : Verdict → Bool
  | .refused _ => true
  | .allowed | .allowedWithBreach _ => false

def gap_reason : Verdict → Option GapReason
  | .allowed => none
  | .refused breach | .allowedWithBreach breach => some breach.gap.reason

def breach (mode : PolicyMode) (breach : Breach) : Verdict :=
  match mode with
  | .strict => .refused breach
  | .prefer | .observe => .allowedWithBreach breach

def ruling : Verdict → Ruling
  | .allowed => .allowed
  | .refused breach => .refused breach.reason
  | .allowedWithBreach breach => .allowedWithBreach breach.reason

end Verdict

variable (T : Texts)

def provider_eligibility (job : Job) (provider : String) : Verdict :=
  if provider ∈ job.denied_providers then
    .breach job.policy_mode
      { reason := "The job denies provider " ++ provider ++ "."
        agent_reason := "The job denies provider " ++ provider ++ "."
        gap := ⟨.policyRefused, "Provider " ++ provider ++ " is on the job's denied list, so no request was sent."⟩ }
  else if !job.allowed_providers.isEmpty && provider ∉ job.allowed_providers then
    .breach job.policy_mode
      { reason := "The job's allowed-provider list does not include " ++ provider ++ "."
        agent_reason := "The job's allowed-provider list does not include " ++ provider ++ "."
        gap := ⟨.policyRefused, "Provider " ++ provider ++
          " is outside the job's allowed-provider list, so no request was sent."⟩ }
  else .allowed

/-- What the first access rule for the host says: a breach, or that it allows the host, where there is one. -/
def access_ruling (job : Job) (host source_url : String) (declared_licence : Option LicenceState) : Except Verdict Bool :=
  match job.access_rule_for host with
  | none => .ok false
  | some (index, pattern, action) =>
    let rule := "access rule " ++ toString (index + 1) ++ " (" ++ pattern.as_written ++ ")"
    match action with
    | .allow | .requireMediation => .ok true
    | .refuse =>
      .error (.breach job.policy_mode
        { reason := rule ++ " refuses host " ++ host ++ "."
          agent_reason := rule ++ " refuses this source's host."
          gap := ⟨.policyRefused, source_url ++ " is refused by " ++ rule ++ "."⟩ })
    | .requireLicence licence =>
      match declared_licence with
      | none => .ok true
      | some (.declared reference) =>
        if reference = licence then .ok true
        else
          .error (.breach job.policy_mode
            { reason := rule ++ " requires licence " ++ T.debug licence ++ " for host " ++ host ++
                ", and the supplier declared " ++ T.debug reference ++ "."
              agent_reason := rule ++ " requires licence " ++ T.debug licence ++
                " for this source's host, and the supplier declared another."
              gap := ⟨.policyRefused, source_url ++ " was declared under licence " ++ T.debug reference ++ ", not the " ++
                T.debug licence ++ " that " ++ rule ++ " requires."⟩ })
      | some .unknown =>
        .error (.breach job.policy_mode
          { reason := rule ++ " requires licence " ++ T.debug licence ++ " for host " ++ host ++
              ", and no supplier declared one."
            agent_reason := rule ++ " requires licence " ++ T.debug licence ++
              " for this source's host, and no supplier declared one."
            gap := ⟨.evidenceMissing, source_url ++ " arrived with no machine-readable licence, and absent licence evidence " ++
              "is unknown rather than the " ++ T.debug licence ++ " that " ++ rule ++ " requires."⟩ })

def source_host_admission (job : Job) (host source_url : String) (provider : Option String)
    (declared_licence : Option LicenceState) : Verdict :=
  if host ∈ job.denied_source_hosts.map T.normalised_host then
    .breach job.policy_mode
      { reason := "The job denies host " ++ host ++ "."
        agent_reason := "The job denies this source's host."
        gap := ⟨.policyRefused, source_url ++ " is on the job's denied-host list."⟩ }
  else
    match access_ruling T job host source_url declared_licence with
    | .error verdict => verdict
    | .ok host_allowed_by_rule =>
      if !host_allowed_by_rule && !provider.any job.allows_provider_sources && !job.allowed_source_hosts.isEmpty &&
          host ∉ job.allowed_source_hosts.map T.normalised_host then
        .breach job.policy_mode
          (if host = "" then
            { reason := "This source has no host, and the job's allowed-host list admits only the hosts it names."
              agent_reason := "This source has no host, and the job's allowed-host list admits only the hosts it names."
              gap := ⟨.policyRefused, source_url ++ " has no host to match against the job's allowed-host list, so it is not " ++
                "a permitted source under this job's source policy."⟩ }
          else
            { reason := "Host " ++ host ++ " is outside the job's allowed-host list."
              agent_reason := "This source's host is outside the job's allowed-host list."
              gap := ⟨.policyRefused, source_url ++ " is not a permitted source under this job's source policy."⟩ })
      else .allowed

def licence_accepted (job : Job) : LicenceState → Bool
  | .declared reference => reference ∈ job.required_licences
  | .unknown => false

def source_admission_from (job : Job) (envelope : ContextEnvelope) (provider : Option String) : Verdict :=
  let provider_ruling := (provider.map (provider_eligibility job)).getD .allowed
  if provider_ruling.is_refusal then provider_ruling
  else if envelope.text.isNone then
    .refused
      { reason := "The provider returned no excerpt for this result."
        agent_reason := "The provider returned no excerpt for this result."
        gap := ⟨.evidenceMissing, envelope.source_url ++
          " was discovered but carried no text, so it could not ground anything."⟩ }
  else
    match source_host_admission T job envelope.host envelope.source_url provider (some envelope.licence) with
    | .allowed =>
      if !job.required_licences.isEmpty && !licence_accepted job envelope.licence then
        .breach job.policy_mode
          { reason := "No supplier declared a licence this job accepts."
            agent_reason := "No supplier declared a licence this job accepts."
            gap := ⟨.evidenceMissing, envelope.source_url ++ " arrived with no machine-readable licence, and absent licence " ++
              "evidence is unknown rather than permitted."⟩ }
      else provider_ruling
    | verdict => verdict

/-- `host_str` is the host of a URL that parses. -/
def fetch_target_admission (host_str : String → Option String) (job : Job) (target provider : String) : Verdict :=
  let provider_ruling := provider_eligibility job provider
  if provider_ruling.is_refusal then provider_ruling
  else
    let host := ((host_str target).map T.normalised_host).getD ""
    match source_host_admission T job host target (some provider) none with
    | .allowed => provider_ruling
    | verdict => verdict

def total_latency (job : Job) (observed_ms : Nat) : Verdict :=
  match job.maximum_latency_ms with
  | none => .allowed
  | some cap =>
    if observed_ms ≤ cap then .allowed
    else
      .breach job.policy_mode
        { reason := "The plan took " ++ toString observed_ms ++ " ms against a cap of " ++ toString cap ++ " ms."
          agent_reason := "The plan took " ++ toString observed_ms ++ " ms against a cap of " ++ toString cap ++ " ms."
          gap := ⟨.policyRefused, "The plan exceeded the job's " ++ toString cap ++ " ms latency limit."⟩ }

section

variable {job : Job} {context : ContextJob}

theorem ruling_breach (mode : PolicyMode) (breach : Breach) : (Verdict.breach mode breach).ruling = .breach mode breach.reason := by
  cases mode
  all_goals rfl

theorem is_refusal_ruling (verdict : Verdict) : verdict.ruling.is_refusal = verdict.is_refusal := by
  cases verdict
  all_goals rfl

theorem ruling_provider_eligibility (of_ : job.Of context) (provider : String) :
    (provider_eligibility job provider).ruling = Admission.provider_eligibility context provider := by
  rw [provider_eligibility, Admission.provider_eligibility, of_.denied_providers, of_.allowed_providers, of_.mode]
  split
  · exact ruling_breach _ _
  · split
    · exact ruling_breach _ _
    · rfl

theorem ruling_access_ruling (of_ : job.Of context) (host source_url : String) (licence : Option LicenceState) :
    (access_ruling T job host source_url licence).mapError Verdict.ruling = Admission.access_ruling T context host licence := by
  rw [access_ruling, Admission.access_ruling, of_.access_rule_for, of_.mode]
  cases context.access_rule_for host with
  | none => rfl
  | some rule =>
    obtain ⟨index, pattern, action⟩ := rule
    cases action with
    | allow => rfl
    | requireMediation => rfl
    | refuse => exact congrArg Except.error (ruling_breach _ _)
    | requireLicence wanted =>
      match licence with
      | none => rfl
      | some .unknown => exact congrArg Except.error (ruling_breach _ _)
      | some (.declared reference) =>
        by_cases same : reference = wanted
        · simp only [if_pos same]
          rfl
        · simp only [if_neg same]
          exact congrArg Except.error (ruling_breach _ _)

theorem ruling_source_host_admission (of_ : job.Of context) (host source_url : String) (provider : Option String)
    (licence : Option LicenceState) : (source_host_admission T job host source_url provider licence).ruling =
      Admission.source_host_admission T context host provider licence := by
  have rules := ruling_access_ruling T of_ host source_url licence
  have allows : job.allows_provider_sources = context.allows_provider_sources := funext of_.allows_provider_sources
  rw [source_host_admission, Admission.source_host_admission, of_.denied_source_hosts, of_.allowed_source_hosts, of_.mode,
    allows, ← rules]
  split
  · exact ruling_breach _ _
  · cases access_ruling T job host source_url licence with
    | error verdict => rfl
    | ok by_rule =>
      show Verdict.ruling (if _ then _ else _) = if _ then _ else _
      split
      · rw [ruling_breach]
        split
        all_goals rfl
      · rfl

theorem ruling_source_admission_from (of_ : job.Of context) (envelope : ContextEnvelope) (provider : Option String) :
    (source_admission_from T job envelope provider).ruling = Admission.source_admission_from T context envelope provider := by
  have providers : ((provider.map (provider_eligibility job)).getD .allowed).ruling =
      (provider.map (Admission.provider_eligibility context)).getD .allowed := by
    cases provider with
    | none => rfl
    | some provider => exact ruling_provider_eligibility of_ provider
  have hosts := ruling_source_host_admission T of_ envelope.host envelope.source_url provider (some envelope.licence)
  have accepted : licence_accepted job envelope.licence = Admission.licence_accepted context envelope.licence := by
    cases envelope.licence with
    | declared reference => simp only [licence_accepted, Admission.licence_accepted, of_.required_licences]
    | unknown => rfl
  unfold source_admission_from Admission.source_admission_from
  dsimp only
  rw [← providers, ← hosts, is_refusal_ruling, of_.required_licences, of_.mode, accepted]
  split
  · rfl
  · split
    · rfl
    · cases source_host_admission T job envelope.host envelope.source_url provider (some envelope.licence) with
      | allowed =>
        show Verdict.ruling (if _ then _ else _) = if _ then _ else _
        split
        · exact ruling_breach _ _
        · rfl
      | refused breach => rfl
      | allowedWithBreach breach => rfl

end

end CommonMeasure.Admission.Explained
