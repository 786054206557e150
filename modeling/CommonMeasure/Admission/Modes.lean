import CommonMeasure.Admission.Explained

/-!
# Rulings across the modes

One job under each mode.
-/

namespace CommonMeasure.Admission

def Job.under (job : Job) (mode : PolicyMode) : Job := { job with policy_mode := mode }

namespace Job

variable (job : Job) (mode : PolicyMode)

@[simp] theorem under_policy_mode : (job.under mode).policy_mode = mode := rfl
@[simp] theorem under_allowed_providers : (job.under mode).allowed_providers = job.allowed_providers := rfl
@[simp] theorem under_denied_providers : (job.under mode).denied_providers = job.denied_providers := rfl
@[simp] theorem under_allowed_source_hosts : (job.under mode).allowed_source_hosts = job.allowed_source_hosts := rfl
@[simp] theorem under_denied_source_hosts : (job.under mode).denied_source_hosts = job.denied_source_hosts := rfl
@[simp] theorem under_required_licences : (job.under mode).required_licences = job.required_licences := rfl
@[simp] theorem under_maximum_latency_ms : (job.under mode).maximum_latency_ms = job.maximum_latency_ms := rfl
@[simp] theorem under_access_rule_for (host : String) : (job.under mode).access_rule_for host = job.access_rule_for host := rfl
@[simp] theorem under_allows_provider_sources (provider : String) :
    (job.under mode).allows_provider_sources provider = job.allows_provider_sources provider := rfl

end Job

namespace Explained

variable {T : Texts} {host_str : String → Option String} {job : Job} {mode : PolicyMode}

def Verdict.found : Verdict → Option Breach
  | .allowed => none
  | .refused breach | .allowedWithBreach breach => some breach

def Verdict.of (mode : PolicyMode) : Option Breach → Verdict
  | none => .allowed
  | some breach => .breach mode breach

structure InStep (strict lenient : Verdict) : Prop where
  allowed : strict = .allowed ↔ lenient = .allowed
  refused : strict ≠ .allowed → strict.is_refusal = true
  carried : lenient ≠ .allowed → ∃ breach, lenient = .allowedWithBreach breach

structure SameBreach (strict lenient : Verdict) : Prop extends InStep strict lenient where
  reason : strict.gap_reason = lenient.gap_reason

/-! ### A breach under each mode -/

theorem Verdict.of_eq_allowed {breach : Option Breach} : Verdict.of mode breach = .allowed ↔ breach = none := by
  cases breach with
  | none => exact iff_of_true rfl rfl
  | some breach =>
    cases mode
    all_goals exact iff_of_false Verdict.noConfusion nofun

theorem Verdict.of_gap_reason (breach : Option Breach) :
    (Verdict.of mode breach).gap_reason = breach.map fun breach => breach.gap.reason := by
  cases breach with
  | none => rfl
  | some breach =>
    cases mode
    all_goals rfl

theorem Verdict.of_is_refusal (breach : Option Breach) :
    (Verdict.of mode breach).is_refusal = (decide (mode = .strict) && breach.isSome) := by
  cases breach with
  | none => rw [Option.isSome_none, Bool.and_false]; rfl
  | some breach =>
    cases mode
    all_goals rfl

theorem inStep_of (lenient : mode ≠ .strict) {breach other : Option Breach} (both : breach = none ↔ other = none) :
    InStep (.of .strict breach) (.of mode other) where
  allowed := by rw [Verdict.of_eq_allowed, Verdict.of_eq_allowed, both]
  refused breached := by
    rw [ne_eq, Verdict.of_eq_allowed] at breached
    rw [Verdict.of_is_refusal, Option.isSome_iff_ne_none.mpr breached]
    rfl
  carried breached := by
    cases other with
    | none => exact (breached rfl).elim
    | some other =>
      cases mode with
      | strict => exact (lenient rfl).elim
      | observe => exact ⟨other, rfl⟩
      | prefer => exact ⟨other, rfl⟩

theorem sameBreach_of (lenient : mode ≠ .strict) (breach : Option Breach) :
    SameBreach (.of .strict breach) (.of mode breach) where
  toInStep := inStep_of lenient Iff.rfl
  reason := by rw [Verdict.of_gap_reason, Verdict.of_gap_reason]

section

variable (T host_str job)

def provider_breach (provider : String) : Option Breach := (provider_eligibility (job.under .strict) provider).found

def host_breach (host source_url : String) (provider : Option String) (licence : Option LicenceState) : Option Breach :=
  (source_host_admission T (job.under .strict) host source_url provider licence).found

def latency_breach (observed_ms : Nat) : Option Breach := (total_latency (job.under .strict) observed_ms).found

def licence_breach (envelope : ContextEnvelope) : Option Breach :=
  if !job.required_licences.isEmpty && !licence_accepted job envelope.licence then
    some
      { reason := "No supplier declared a licence this job accepts."
        agent_reason := "No supplier declared a licence this job accepts."
        gap := ⟨.evidenceMissing, envelope.source_url ++ " arrived with no machine-readable licence, and absent licence " ++
          "evidence is unknown rather than permitted."⟩ }
  else none

def source_breach (envelope : ContextEnvelope) (provider : Option String) : Option Breach :=
  (host_breach T job envelope.host envelope.source_url provider (some envelope.licence)).or (licence_breach job envelope)

def supplier_breach (provider : Option String) : Option Breach := provider.bind (provider_breach job)

end

theorem provider_eligibility_under (provider : String) :
    provider_eligibility (job.under mode) provider = .of mode (provider_breach job provider) := by
  unfold provider_breach provider_eligibility
  by_cases denied : provider ∈ job.denied_providers
  · have listed : ∀ mode, provider ∈ (job.under mode).denied_providers := fun _ => denied
    rw [if_pos (listed mode), if_pos (listed .strict)]
    rfl
  · have unlisted : ∀ mode, provider ∉ (job.under mode).denied_providers := fun _ => denied
    have allowed : (job.under mode).allowed_providers = (job.under .strict).allowed_providers := rfl
    rw [if_neg (unlisted mode), if_neg (unlisted .strict), allowed]
    split
    all_goals rfl

theorem access_ruling_under (host source_url : String) (licence : Option LicenceState) :
    access_ruling T (job.under mode) host source_url licence =
      (access_ruling T (job.under .strict) host source_url licence).mapError fun verdict => .of mode verdict.found := by
  simp only [access_ruling, Job.under_access_rule_for, Job.under_policy_mode]
  cases job.access_rule_for host with
  | none => rfl
  | some rule =>
    obtain ⟨index, pattern, action⟩ := rule
    cases action with
    | allow => rfl
    | requireMediation => rfl
    | refuse => rfl
    | requireLicence wanted =>
      cases licence with
      | none => rfl
      | some licence =>
        cases licence with
        | unknown => rfl
        | declared reference =>
          by_cases same : reference = wanted
          · simp only [if_pos same]
            rfl
          · simp only [if_neg same]
            rfl

theorem source_host_admission_under (host source_url : String) (provider : Option String) (licence : Option LicenceState) :
    source_host_admission T (job.under mode) host source_url provider licence =
      .of mode (host_breach T job host source_url provider licence) := by
  unfold host_breach source_host_admission
  by_cases denied : host ∈ job.denied_source_hosts.map T.normalised_host
  · have listed : ∀ mode, host ∈ (job.under mode).denied_source_hosts.map T.normalised_host := fun _ => denied
    rw [if_pos (listed mode), if_pos (listed .strict)]
    rfl
  · have unlisted : ∀ mode, host ∉ (job.under mode).denied_source_hosts.map T.normalised_host := fun _ => denied
    have allows : (job.under mode).allows_provider_sources = (job.under .strict).allows_provider_sources := rfl
    have allowed : (job.under mode).allowed_source_hosts = (job.under .strict).allowed_source_hosts := rfl
    rw [if_neg (unlisted mode), if_neg (unlisted .strict), @access_ruling_under T job mode, allows, allowed]
    cases access_ruling T (job.under .strict) host source_url licence with
    | error verdict => rfl
    | ok by_rule =>
      dsimp only [Except.mapError]
      split
      all_goals rfl

theorem total_latency_under (observed_ms : Nat) :
    total_latency (job.under mode) observed_ms = .of mode (latency_breach job observed_ms) := by
  simp only [latency_breach, total_latency, Job.under_maximum_latency_ms, Job.under_policy_mode]
  cases job.maximum_latency_ms with
  | none => rfl
  | some cap =>
    dsimp only
    split
    all_goals rfl

theorem supplier_ruling (provider : Option String) :
    (provider.map (provider_eligibility (job.under mode))).getD .allowed = .of mode (supplier_breach job provider) := by
  cases provider with
  | none => rfl
  | some provider => exact provider_eligibility_under provider

theorem accepted_under (licence : LicenceState) : licence_accepted (job.under mode) licence = licence_accepted job licence := by
  cases licence
  all_goals rfl

theorem source_admission_from_text {envelope : ContextEnvelope} (text : envelope.text.isSome) (provider : Option String) :
    source_admission_from T (job.under mode) envelope provider =
      if (Verdict.of mode (supplier_breach job provider)).is_refusal then .of mode (supplier_breach job provider)
      else .of mode ((source_breach T job envelope provider).or (supplier_breach job provider)) := by
  have some_ : ¬envelope.text.isNone = true := by
    rw [Option.isNone_iff_eq_none]
    rintro absent
    rw [absent] at text
    cases text
  have required : (job.under mode).required_licences = job.required_licences := rfl
  unfold source_admission_from
  rw [supplier_ruling, accepted_under, required]
  dsimp only
  rw [if_neg some_, source_host_admission_under, source_breach]
  split
  · rfl
  cases host_breach T job envelope.host envelope.source_url provider (some envelope.licence) with
  | none =>
    rw [Option.none_or, licence_breach]
    show (if _ then _ else _ : Verdict) = _
    split
    all_goals rfl
  | some breach =>
    cases mode
    all_goals rfl

theorem source_admission_from_strict {envelope : ContextEnvelope} (text : envelope.text.isSome) (provider : Option String) :
    source_admission_from T (job.under .strict) envelope provider =
      .of .strict ((supplier_breach job provider).or (source_breach T job envelope provider)) := by
  rw [source_admission_from_text text]
  cases supplier_breach job provider with
  | none =>
    rw [Option.or_none, Option.none_or]
    rfl
  | some breach => rfl

theorem source_admission_from_lenient (lenient : mode ≠ .strict) {envelope : ContextEnvelope} (text : envelope.text.isSome)
    (provider : Option String) : source_admission_from T (job.under mode) envelope provider =
      .of mode ((source_breach T job envelope provider).or (supplier_breach job provider)) := by
  rw [source_admission_from_text text, Verdict.of_is_refusal, decide_eq_false lenient, Bool.false_and]
  rfl

theorem textless_refused {envelope : ContextEnvelope} (textless : envelope.text = none) (provider : Option String) :
    (source_admission_from T job envelope provider).is_refusal = true := by
  unfold source_admission_from
  dsimp only
  split
  · assumption
  · rw [textless, Option.isNone_none, if_pos rfl]
    rfl

theorem fetch_target_admission_under (target provider : String) :
    fetch_target_admission T host_str (job.under mode) target provider =
      let host := host_breach T job (((host_str target).map T.normalised_host).getD "") target (some provider) none
      if (Verdict.of mode (provider_breach job provider)).is_refusal then .of mode (provider_breach job provider)
      else .of mode (host.or (provider_breach job provider)) := by
  unfold fetch_target_admission
  rw [provider_eligibility_under]
  dsimp only
  rw [source_host_admission_under]
  split
  · rfl
  cases host_breach T job (((host_str target).map T.normalised_host).getD "") target (some provider) none with
  | none => rfl
  | some breach =>
    cases mode
    all_goals rfl

theorem provider_breach_reason {provider : String} {breach : Breach} (found : provider_breach job provider = some breach) :
    breach.gap.reason = .policyRefused := by
  unfold provider_breach provider_eligibility at found
  split at found
  · cases found
    rfl
  · split at found
    · cases found
      rfl
    · cases found

theorem host_breach_reason {host source_url : String} {provider : Option String} {breach : Breach}
    (found : host_breach T job host source_url provider none = some breach) : breach.gap.reason = .policyRefused := by
  unfold host_breach source_host_admission at found
  split at found
  · cases found
    rfl
  split at found
  · rename_i verdict ruled
    rw [access_ruling] at ruled
    split at ruled
    · cases ruled
    · split at ruled
      · cases ruled
      · cases ruled
      · cases ruled
        cases found
        rfl
      · cases ruled
  · split at found
    · split at found
      all_goals
        cases found
        rfl
    · cases found

theorem ineligible_unexcepted {provider : String} (ineligible : provider_breach job provider ≠ none) :
    job.allows_provider_sources provider = false := by
  by_contra allows
  rw [Bool.not_eq_false, Job.allows_provider_sources, Bool.and_eq_true, Bool.and_eq_true, Bool.or_eq_true] at allows
  obtain ⟨⟨_, admitted⟩, listed⟩ := allows
  apply ineligible
  have undenied : provider ∉ (job.under .strict).denied_providers := of_decide_eq_true admitted
  unfold provider_breach provider_eligibility
  rw [if_neg undenied]
  rcases listed with empty | listed
  · have none_ : (job.under .strict).allowed_providers.isEmpty = true := empty
    rw [none_]
    rfl
  · have member : provider ∈ (job.under .strict).allowed_providers := of_decide_eq_true listed
    rw [decide_eq_false (not_not_intro member), Bool.and_false]
    rfl

theorem source_breach_ineligible {provider : String} (ineligible : provider_breach job provider ≠ none)
    (envelope : ContextEnvelope) : source_breach T job envelope (some provider) = source_breach T job envelope none := by
  have unexcepted : (job.under .strict).allows_provider_sources provider = false := ineligible_unexcepted ineligible
  simp only [source_breach, host_breach, source_host_admission, Option.any_some, Option.any_none, unexcepted]

theorem host_breach_denied {host source_url : String} {provider : Option String} {licence : Option LicenceState}
    (denied : host ∈ job.denied_source_hosts.map T.normalised_host) :
    host_breach T job host source_url provider licence ≠ none := by
  have listed : host ∈ (job.under .strict).denied_source_hosts.map T.normalised_host := denied
  unfold host_breach source_host_admission
  rw [if_pos listed]
  exact Option.some_ne_none _

structure ModeLaw (T : Texts) (host_str : String → Option String) (job : Job) (mode : PolicyMode) : Prop where
  provider : ∀ provider,
    SameBreach (provider_eligibility (job.under .strict) provider) (provider_eligibility (job.under mode) provider)
  latency : ∀ observed_ms, SameBreach (total_latency (job.under .strict) observed_ms) (total_latency (job.under mode) observed_ms)
  target : ∀ target provider, SameBreach (fetch_target_admission T host_str (job.under .strict) target provider)
    (fetch_target_admission T host_str (job.under mode) target provider)
  textless : ∀ envelope provider, envelope.text = none →
    (source_admission_from T (job.under .strict) envelope provider).is_refusal = true ∧
      (source_admission_from T (job.under mode) envelope provider).is_refusal = true
  source : ∀ envelope provider, envelope.text.isSome →
    InStep (source_admission_from T (job.under .strict) envelope provider)
      (source_admission_from T (job.under mode) envelope provider)
  eligible : ∀ envelope provider, envelope.text.isSome →
    (∀ name, provider = some name → provider_eligibility (job.under mode) name = .allowed) →
    (source_admission_from T (job.under .strict) envelope provider).gap_reason =
      (source_admission_from T (job.under mode) envelope provider).gap_reason
  ineligible : ∀ envelope name, envelope.text.isSome → provider_eligibility (job.under mode) name ≠ .allowed →
    (source_admission_from T (job.under .strict) envelope (some name)).gap_reason = some .policyRefused ∧
      (source_admission_from T (job.under mode) envelope (some name)).gap_reason =
        (source_admission_from T (job.under mode) envelope none).gap_reason.or (some .policyRefused)
  denied_source : ∀ mode envelope provider host, T.normalised_host host ∈ job.denied_source_hosts.map T.normalised_host →
    envelope.host = T.normalised_host host → source_admission_from T (job.under mode) envelope provider ≠ .allowed
  denied_target : ∀ mode target provider host, T.normalised_host host ∈ job.denied_source_hosts.map T.normalised_host →
    host_str target = some host → fetch_target_admission T host_str (job.under mode) target provider ≠ .allowed

theorem denied_source_breached {envelope : ContextEnvelope} {provider : Option String} {host : String}
    (denied : T.normalised_host host ∈ job.denied_source_hosts.map T.normalised_host)
    (here : envelope.host = T.normalised_host host) : source_admission_from T (job.under mode) envelope provider ≠ .allowed := by
  intro allowed
  by_cases text : envelope.text.isSome
  · rw [source_admission_from_text text] at allowed
    rw [← here] at denied
    split at allowed
    · rename_i refused
      rw [allowed] at refused
      cases refused
    · rw [Verdict.of_eq_allowed, Option.or_eq_none_iff, source_breach, Option.or_eq_none_iff] at allowed
      exact host_breach_denied denied allowed.1.1
  · rw [Option.not_isSome_iff_eq_none] at text
    have refused := @textless_refused T (job.under mode) _ text provider
    rw [allowed] at refused
    cases refused

theorem denied_target_breached {target provider host : String}
    (denied : T.normalised_host host ∈ job.denied_source_hosts.map T.normalised_host) (here : host_str target = some host) :
    fetch_target_admission T host_str (job.under mode) target provider ≠ .allowed := by
  intro allowed
  rw [fetch_target_admission_under] at allowed
  dsimp only at allowed
  rw [here, Option.map_some, Option.getD_some] at allowed
  split at allowed
  · rename_i refused
    rw [allowed] at refused
    cases refused
  · rw [Verdict.of_eq_allowed, Option.or_eq_none_iff] at allowed
    exact host_breach_denied denied allowed.1

theorem or_none_comm (a b : Option Breach) : a.or b = none ↔ b.or a = none := by
  rw [Option.or_eq_none_iff, Option.or_eq_none_iff, and_comm]

theorem target_sameBreach (lenient : mode ≠ .strict) (target provider : String) :
    SameBreach (fetch_target_admission T host_str (job.under .strict) target provider)
      (fetch_target_admission T host_str (job.under mode) target provider) := by
  rw [fetch_target_admission_under, fetch_target_admission_under]
  dsimp only
  have hosted : ∀ breach, host_breach T job (((host_str target).map T.normalised_host).getD "") target (some provider) none =
      some breach → breach.gap.reason = .policyRefused := fun breach found => host_breach_reason found
  have supplied : ∀ breach, provider_breach job provider = some breach → breach.gap.reason = .policyRefused :=
    fun breach found => provider_breach_reason found
  rw [Verdict.of_is_refusal, Verdict.of_is_refusal, decide_eq_false lenient, Bool.false_and, decide_eq_true rfl, Bool.true_and,
    if_neg Bool.false_ne_true]
  generalize host_breach T job (((host_str target).map T.normalised_host).getD "") target (some provider) none = host at hosted ⊢
  cases supplier : provider_breach job provider with
  | none =>
    rw [Option.or_none, Option.isSome_none, if_neg Bool.false_ne_true]
    exact sameBreach_of lenient host
  | some breach =>
    rw [Option.isSome_some, if_pos rfl]
    refine ⟨inStep_of lenient (iff_of_false (Option.some_ne_none _) ?_), ?_⟩
    · rw [Option.or_eq_none_iff]
      exact fun both => Option.some_ne_none _ both.2
    · rw [Verdict.of_gap_reason, Verdict.of_gap_reason]
      cases host with
      | none => rfl
      | some other =>
        show some breach.gap.reason = some other.gap.reason
        rw [supplied breach supplier, hosted other rfl]

/-- The mode decides what becomes of a breach, and, where a supplier is not eligible, which breach is named. -/
theorem mode_decides (T : Texts) (host_str : String → Option String) (job : Job) {mode : PolicyMode}
    (lenient : mode ≠ .strict) : ModeLaw T host_str job mode where
  provider provider := by
    rw [provider_eligibility_under, provider_eligibility_under]
    exact sameBreach_of lenient _
  latency observed_ms := by
    rw [total_latency_under, total_latency_under]
    exact sameBreach_of lenient _
  target := target_sameBreach lenient
  textless envelope provider textless := ⟨textless_refused textless provider, textless_refused textless provider⟩
  source envelope provider text := by
    rw [source_admission_from_strict text, source_admission_from_lenient lenient text]
    exact inStep_of lenient (or_none_comm _ _)
  eligible envelope provider text eligible := by
    have none_ : supplier_breach job provider = none := by
      cases provider with
      | none => rfl
      | some name =>
        have allowed := eligible name rfl
        rw [provider_eligibility_under, Verdict.of_eq_allowed] at allowed
        exact allowed
    rw [source_admission_from_strict text, source_admission_from_lenient lenient text, none_, Option.or_none, Option.none_or,
      Verdict.of_gap_reason, Verdict.of_gap_reason]
  ineligible envelope name text ineligible := by
    rw [provider_eligibility_under, ne_eq, Verdict.of_eq_allowed] at ineligible
    obtain ⟨breach, found⟩ := Option.ne_none_iff_exists'.mp ineligible
    have reason := provider_breach_reason found
    have supplier : supplier_breach job (some name) = some breach := found
    have unnamed : supplier_breach job none = none := rfl
    rw [source_admission_from_strict text, source_admission_from_lenient lenient text,
      source_admission_from_lenient lenient text, source_breach_ineligible ineligible, supplier, unnamed, Option.or_none,
      Option.some_or, Verdict.of_gap_reason, Verdict.of_gap_reason, Verdict.of_gap_reason, Option.map_some, reason]
    refine ⟨rfl, ?_⟩
    cases source_breach T job envelope none with
    | none =>
      rw [Option.none_or, Option.map_some, reason]
      rfl
    | some other => rfl
  denied_source _ _ _ _ denied here := denied_source_breached denied here
  denied_target _ _ _ _ denied here := denied_target_breached denied here

/-- A job that denies the supplier `p` and the host `evil.com`, and requires a licence. -/
def deniedSupplier : Job where
  kind := "research"
  prompt := "Find sources."
  policy_mode := .strict
  objective := .maximiseQuality
  constraints := [.deniedProvider "p", .requiredLicence "CC-BY-4.0", .deniedSourceHost "evil.com"]

def excerpt (host : String) (licence : LicenceState) : ContextEnvelope where
  source_url := "https://" ++ host ++ "/a"
  host := host
  title := none
  content_hash := none
  licence := licence
  retrieval_rank := none
  text := some ['x']

theorem mode_decides_denied : ModeLaw loweredTexts (fun _ => none) deniedSupplier .observe :=
  mode_decides loweredTexts (fun _ => none) deniedSupplier (by decide)

/-- Strict mode names the supplier's breach where observe names the licence's, and an envelope whose host is not in its normal
form passes the denial of that host. -/
theorem modes_differ :
    (source_admission_from loweredTexts (deniedSupplier.under .strict) (excerpt "example.com" .unknown) (some "p")).gap_reason =
        some .policyRefused ∧
      (source_admission_from loweredTexts (deniedSupplier.under .observe) (excerpt "example.com" .unknown)
        (some "p")).gap_reason = some .evidenceMissing ∧
      loweredTexts.normalised_host "Evil.com" ∈ deniedSupplier.denied_source_hosts ∧
      source_admission_from loweredTexts (deniedSupplier.under .strict) (excerpt "Evil.com" (.declared "CC-BY-4.0")) none =
        .allowed := by
  decide +kernel

end Explained

end CommonMeasure.Admission
