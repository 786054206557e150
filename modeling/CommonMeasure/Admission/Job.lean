import CommonMeasure.Admission.Policy
import CommonMeasure.Foundation.Words

namespace CommonMeasure.Admission

inductive Term where
  | processorEgress (processor provider : String)
  | allowedProvider (provider : String)
  | deniedProvider (provider : String)
  | allowedSourceProvider (provider : String)
  | allowedSourceHost (host : String)
  | deniedSourceHost (host : String)
  | requiredLicence (licence : String)
  | maximumAcquisitionCost (amount : Money)
  | maximumContextTokens (tokens : Nat)
  | maximumLatencyMs (milliseconds : Nat)
  | accessRule (host : HostPattern) (action : AccessAction)
  | releaseSigner (host : HostPattern) (keys : List String)
  deriving DecidableEq

structure Weights where
  quality : Rat
  coverage : Rat
  freshness : Rat
  cost : Rat
  latency : Rat
  policy_risk : Rat
  deriving DecidableEq

inductive Objective where
  | maximiseQuality | minimiseCost | minimiseLatency
  | weighted (weights : Weights)
  deriving DecidableEq

structure Job where
  kind : String
  prompt : String
  policy_mode : PolicyMode
  objective : Objective
  constraints : List Term
  deriving DecidableEq

inductive JobError where
  | emptyKind
  | emptyPrompt
  | conflictingProviderPolicy (provider : String)
  | conflictingSourcePolicy (host : String)
  | mixedBudgetCurrencies
  | duplicateConstraint (kind : String)
  | negativeObjectiveWeight (name : String)
  | invalidAccessRule (index : Nat) (reason : String)
  deriving DecidableEq

def blank (text : String) : Bool := (trim text.toList).isEmpty

def AccessAction.validate : AccessAction → Except String Unit
  | .requireLicence licence =>
    if blank licence then .error "a require_licence access rule must name the licence it requires" else .ok ()
  | _ => .ok ()

def Weights.named (weights : Weights) : List (String × Rat) :=
  [("quality", weights.quality), ("coverage", weights.coverage), ("freshness", weights.freshness), ("cost", weights.cost),
    ("latency", weights.latency), ("policy_risk", weights.policy_risk)]

def Objective.negative : Objective → Option String
  | .weighted weights => (weights.named.find? fun weight => weight.2 < 0).map Prod.fst
  | _ => none

def Term.scalar : Term → Option String
  | .maximumAcquisitionCost _ => some "maximum_acquisition_cost"
  | .maximumContextTokens _ => some "maximum_context_tokens"
  | .maximumLatencyMs _ => some "maximum_latency_ms"
  | _ => none

def Term.invalid : Term → Option String
  | .accessRule _ action =>
    match action.validate with
    | .error reason => some reason
    | .ok _ => none
  | _ => none

namespace Job

variable (job : Job)

def allowed_providers : List String := job.constraints.filterMap fun
  | .allowedProvider provider => some provider
  | _ => none

def denied_providers : List String := job.constraints.filterMap fun
  | .deniedProvider provider => some provider
  | _ => none

def allows_provider_sources (provider : String) : Bool :=
  .allowedSourceProvider provider ∈ job.constraints && provider ∉ job.denied_providers &&
    (job.allowed_providers.isEmpty || provider ∈ job.allowed_providers)

def allowed_source_hosts : List String := job.constraints.filterMap fun
  | .allowedSourceHost host => some host
  | _ => none

def denied_source_hosts : List String := job.constraints.filterMap fun
  | .deniedSourceHost host => some host
  | _ => none

def required_licences : List String := job.constraints.filterMap fun
  | .requiredLicence licence => some licence
  | _ => none

def maximum_latency_ms : Option Nat := job.constraints.findSome? fun
  | .maximumLatencyMs milliseconds => some milliseconds
  | _ => none

def access_rules : List (Nat × HostPattern × AccessAction) := job.constraints.zipIdx.filterMap fun
  | (.accessRule host action, index) => some (index, host, action)
  | _ => none

def access_rule_for (host : String) : Option (Nat × HostPattern × AccessAction) :=
  job.access_rules.find? fun rule => rule.2.1.matches_ host

def budgeted (currency : Option String) : Term → Except JobError (Option String)
  | .maximumAcquisitionCost amount =>
    match currency with
    | some other => if other ≠ amount.currency then .error .mixedBudgetCurrencies else .ok (some other)
    | none => .ok (some amount.currency)
  | _ => .ok currency

def checkTerms : Option String → List String → List (Term × Nat) → Except JobError Unit
  | _, _, [] => .ok ()
  | currency, declared, (term, index) :: rest =>
    match term.invalid with
    | some reason => .error (.invalidAccessRule index reason)
    | none =>
      match budgeted currency term with
      | .error error => .error error
      | .ok currency =>
        match term.scalar with
        | none => checkTerms currency declared rest
        | some scalar =>
          if scalar ∈ declared then .error (.duplicateConstraint scalar)
          else checkTerms currency (declared ++ [scalar]) rest

def validate : Except JobError Unit :=
  if blank job.kind then .error .emptyKind
  else if blank job.prompt then .error .emptyPrompt
  else match job.objective.negative with
    | some name => .error (.negativeObjectiveWeight name)
    | none =>
      match checkTerms none [] job.constraints.zipIdx with
      | .error error => .error error
      | .ok _ =>
        match job.allowed_providers.find? fun candidate => candidate ∈ job.denied_providers with
        | some provider => .error (.conflictingProviderPolicy provider)
        | none =>
          match job.allowed_source_hosts.find? fun candidate => candidate ∈ job.denied_source_hosts with
          | some host => .error (.conflictingSourcePolicy host)
          | none => .ok ()

end Job

def Constraint.term : Constraint → Term
  | .allowedProvider provider => .allowedProvider provider
  | .deniedProvider provider => .deniedProvider provider
  | .allowedSourceProvider provider => .allowedSourceProvider provider
  | .allowedSourceHost host => .allowedSourceHost host
  | .deniedSourceHost host => .deniedSourceHost host
  | .requiredLicence licence => .requiredLicence licence
  | .accessRule host action => .accessRule host action
  | .maximumAcquisitionCost amount => .maximumAcquisitionCost amount
  | .maximumContextTokens tokens => .maximumContextTokens tokens

structure Job.Of (job : Job) (context : ContextJob) : Prop where
  mode : job.policy_mode = context.policy_mode
  constraints : job.constraints = context.constraints.map Constraint.term

section

variable {job : Job} {context : ContextJob}

theorem filterMap_term {β : Type} {f : Term → Option β} {g : Constraint → Option β} (same : ∀ c, f (Constraint.term c) = g c)
    (constraints : List Constraint) : (constraints.map Constraint.term).filterMap f = constraints.filterMap g := by
  rw [List.filterMap_map]
  congr 1
  exact funext same

theorem Job.Of.allowed_providers (of_ : job.Of context) : job.allowed_providers = context.allowed_providers := by
  rw [Job.allowed_providers, of_.constraints]
  exact filterMap_term (fun c => by cases c <;> rfl) _

theorem Job.Of.denied_providers (of_ : job.Of context) : job.denied_providers = context.denied_providers := by
  rw [Job.denied_providers, of_.constraints]
  exact filterMap_term (fun c => by cases c <;> rfl) _

theorem Job.Of.allowed_source_hosts (of_ : job.Of context) : job.allowed_source_hosts = context.allowed_source_hosts := by
  rw [Job.allowed_source_hosts, of_.constraints]
  exact filterMap_term (fun c => by cases c <;> rfl) _

theorem Job.Of.denied_source_hosts (of_ : job.Of context) : job.denied_source_hosts = context.denied_source_hosts := by
  rw [Job.denied_source_hosts, of_.constraints]
  exact filterMap_term (fun c => by cases c <;> rfl) _

theorem Job.Of.required_licences (of_ : job.Of context) : job.required_licences = context.required_licences := by
  rw [Job.required_licences, of_.constraints]
  exact filterMap_term (fun c => by cases c <;> rfl) _

theorem Job.Of.allows_provider_sources (of_ : job.Of context) (provider : String) :
    job.allows_provider_sources provider = context.allows_provider_sources provider := by
  have listed : (Term.allowedSourceProvider provider ∈ job.constraints) ↔
      (Constraint.allowedSourceProvider provider ∈ context.constraints) := by
    rw [of_.constraints, List.mem_map]
    constructor
    · rintro ⟨c, here, same⟩
      cases c
      all_goals first | (cases same; exact here) | cases same
    · exact fun here => ⟨_, here, rfl⟩
  simp only [Job.allows_provider_sources, ContextJob.allows_provider_sources, listed, of_.denied_providers,
    of_.allowed_providers]

theorem Job.Of.access_rule_for (of_ : job.Of context) (host : String) :
    job.access_rule_for host = context.access_rule_for host := by
  have rules : job.access_rules = context.access_rules := by
    rw [Job.access_rules, ContextJob.access_rules, of_.constraints, List.zipIdx_map, List.filterMap_map]
    congr 1
    funext entry
    obtain ⟨c, index⟩ := entry
    cases c
    all_goals rfl
  rw [Job.access_rule_for, ContextJob.access_rule_for, rules]

end

theorem Job.accepted_apart {job : Job} (accepted : job.validate = .ok ()) :
    ∀ host ∈ job.allowed_source_hosts, host ∉ job.denied_source_hosts := by
  intro host listed denied
  have found : (job.allowed_source_hosts.find? fun candidate => candidate ∈ job.denied_source_hosts).isSome :=
    List.find?_isSome.mpr ⟨host, listed, by simpa using denied⟩
  obtain ⟨other, is⟩ := Option.isSome_iff_exists.mp found
  rw [Job.validate] at accepted
  split at accepted
  · cases accepted
  split at accepted
  · cases accepted
  split at accepted
  · cases accepted
  split at accepted
  · cases accepted
  split at accepted
  · cases accepted
  rw [is] at accepted
  cases accepted

def Job.HostsApart (T : Texts) (job : Job) : Prop :=
  ∀ allowed ∈ job.allowed_source_hosts, T.normalised_host allowed ∉ job.denied_source_hosts.map T.normalised_host

def Job.SpeltAlike (T : Texts) (job : Job) : Prop :=
  ∀ allowed ∈ job.allowed_source_hosts, ∀ denied ∈ job.denied_source_hosts,
    T.normalised_host denied = T.normalised_host allowed → denied = allowed

/-- The loader compares entries as they are written, admission as hosts: they agree where one host is spelt one way. -/
theorem hosts_apart_iff (T : Texts) (job : Job) (accepted : job.validate = .ok ()) : job.HostsApart T ↔ job.SpeltAlike T := by
  constructor
  · intro apart allowed listed denied also same
    exact (apart allowed listed (List.mem_map.mpr ⟨denied, also, same⟩)).elim
  · intro alike allowed listed denied
    obtain ⟨other, also, same⟩ := List.mem_map.mp denied
    have one := alike allowed listed other also same
    subst one
    exact Job.accepted_apart accepted other listed also

def loweredTexts : Texts where
  normalised_host host := String.ofList (host.toList.map Char.toLower)
  debug text := text
  as_decimal_string _ := ""

def twoSpellings (allowed : String) : Job where
  kind := "research"
  prompt := "Find sources."
  policy_mode := .strict
  objective := .maximiseQuality
  constraints := [.allowedSourceHost allowed, .deniedSourceHost "example.com"]

/-- A job that allows one host and denies another. -/
theorem hosts_apart_iff_two : (twoSpellings "docs.example.org").HostsApart loweredTexts ↔
    (twoSpellings "docs.example.org").SpeltAlike loweredTexts :=
  hosts_apart_iff loweredTexts (twoSpellings "docs.example.org") (by decide +kernel)

/-- A job that allows a host in one spelling and denies it in another is accepted. -/
theorem two_spellings_accepted :
    (twoSpellings "Example.com").validate = .ok () ∧ ¬(twoSpellings "Example.com").HostsApart loweredTexts := by
  refine ⟨by decide +kernel, fun apart => ?_⟩
  have listed : "Example.com" ∈ (twoSpellings "Example.com").allowed_source_hosts := by decide +kernel
  have denied : loweredTexts.normalised_host "Example.com" ∈
      (twoSpellings "Example.com").denied_source_hosts.map loweredTexts.normalised_host := by decide +kernel
  exact apart _ listed denied

end CommonMeasure.Admission
