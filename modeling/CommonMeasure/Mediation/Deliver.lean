import CommonMeasure.Admission.Explained
import CommonMeasure.Admission.Pipeline
import CommonMeasure.Mediation.Crossing

/-!
# What a search delivers

Each envelope a supplier returned is admitted, screened, recorded where its address may be, and shown or refused.
-/

namespace CommonMeasure.Mediation.Search

open Admission (Job Texts Screens ContextEnvelope HostPattern LicenceState AcquisitionCharge PolicyMode Ruling pii_ruling)
open Admission.Explained
open Optimise (approximate_tokens)

/-- The operator's policy as a session holds it. `records_address` is the floor below which nothing is recorded. -/
structure SessionPolicy where
  job : Job
  fail_closed : Option String
  records_address : String → Bool

structure Supplied extends ContextEnvelope where
  declared_date : Option String

structure SearchAcquisition where
  provider : String
  capability : String
  endpoint : String
  http_status : Option Nat
  latency_ms : Nat
  provider_request_id : Option String
  charge : AcquisitionCharge
  envelopes : List Supplied
  raw_response : Bytes

structure SuppliedFacts (D R I : Type) extends FetchFacts D R I where
  supplier : Option String
  told_position : Option (Nat × Nat)

inductive Written (D R I : Type) where
  | processor (name reference : String) (content_hash : Option String) (tokens : Nat) (ruling : Ruling)
  | crossing (facts : SuppliedFacts D R I)

structure RefusedEntry where
  position : Nat
  of_ : Nat
  reason : AgentText
  deriving DecidableEq

structure SearchResult where
  url : String
  title : Option String
  text : Option (List Char)
  content_hash : Option String
  licence : LicenceState
  declared_date : Option String

structure Answer where
  provider : String
  results : List SearchResult
  received : Nat
  refused : Nat
  refusals : List RefusedEntry
  charge : AcquisitionCharge
  capability : String
  endpoint : String
  http_status : Option Nat
  provider_request_id : Option String
  adapter_version : String
  response_sha256 : String
  latency_ms : Nat
  recorded_in : String

def estimate_tokens (text : List Char) : Nat := (text.length + 3) / 4

section

variable {D R I : Type}

namespace Written

def url : Written D R I → String
  | .processor _ reference _ _ _ => reference
  | .crossing facts => facts.url

def crossing? : Written D R I → Option (SuppliedFacts D R I)
  | .processor .. => none
  | .crossing facts => some facts

end Written

def SuppliedFacts.as_delivered (url supplier : String) (content_hash : Option String) (estimated_tokens : Option Nat)
    (refusal breach : Option String) (licence : LicenceState) : SuppliedFacts D R I :=
  { FetchFacts.carried url with
    content_hash, estimated_tokens, refusal, breach, licence, supplier := some supplier, told_position := none }

variable (T : Texts) (S : Screens) (policy : SessionPolicy) (provider : String)

def SessionPolicy.authority_ruling : Option Verdict :=
  policy.fail_closed.map fun reason => .refused
    { reason := "Principal authority refused: " ++ reason ++ "."
      agent_reason := "Principal authority refused: " ++ reason ++ "."
      gap := ⟨.policyRefused, "No authenticated principal policy authorised this crossing."⟩ }

def SessionPolicy.admit_from_provider (envelope : ContextEnvelope) : Verdict :=
  policy.authority_ruling.getD (source_admission_from T policy.job envelope (some provider))

def injection_verdict (source_ref : String) (text : List Char) : Verdict :=
  match S.injection text with
  | none => .allowed
  | some (count, summary) =>
    let matched := "The injection screen matched " ++ toString count ++ " known prompt-injection phrasing" ++
      (if count = 1 then "" else "s") ++ " (" ++ summary ++ ") in "
    .breach policy.job.policy_mode
      { reason := matched ++ source_ref ++ "."
        agent_reason := matched ++ "the text screened."
        gap := ⟨.policyRefused, source_ref ++ " matched the injection screen's rules (" ++ summary ++
          "); the match is recorded in the plan's processor invocations. A match names a rule, not a proven attack."⟩ }

def screened (envelope : ContextEnvelope) : Option (List Char) :=
  if (policy.admit_from_provider T provider envelope).is_refusal then none else envelope.text

def two : Verdict → Option (String × AgentText)
  | .refused breach => some (breach.reason, breach.agent_reason)
  | _ => none

def refusal (envelope : ContextEnvelope) : Option (String × AgentText) :=
  let ruling := policy.admit_from_provider T provider envelope
  if ruling.is_refusal then two ruling
  else (screened T policy provider envelope).bind fun text => two (injection_verdict S policy envelope.source_url text)

def carried_breach (envelope : ContextEnvelope) : Option String :=
  let screened := screened T policy provider envelope
  merge_breaches
    (merge_breaches (policy.admit_from_provider T provider envelope).ruling.reason
      (screened.bind fun text => (pii_ruling S envelope.source_url text).reason))
    (screened.bind fun text => (injection_verdict S policy envelope.source_url text).ruling.reason)

def screens_written (envelope : ContextEnvelope) : List (Written D R I) :=
  match screened T policy provider envelope with
  | none => []
  | some text =>
    [.processor "pii-detector" envelope.source_url envelope.content_hash (approximate_tokens text)
        (pii_ruling S envelope.source_url text),
      .processor "injection-screen" envelope.source_url envelope.content_hash (approximate_tokens text)
        (injection_verdict S policy envelope.source_url text).ruling]

def crossed (received index : Nat) (envelope : ContextEnvelope) : SuppliedFacts D R I :=
  let refusal := refusal T S policy provider envelope
  { SuppliedFacts.as_delivered envelope.source_url provider envelope.content_hash (envelope.text.map estimate_tokens)
      (refusal.map Prod.fst) (if refusal.isSome then none else carried_breach T S policy provider envelope) envelope.licence with
    told_position := refusal.map fun _ => (index + 1, received)
    told := refusal.map Prod.snd }

def shown (envelope : Supplied) : SearchResult :=
  ⟨envelope.source_url, envelope.title, envelope.text, envelope.content_hash, envelope.licence, envelope.declared_date⟩

/-- One turn of the loop: what it records, the entry of `refusals` and the result it leaves. -/
def deliver_one (received : Nat) (numbered : Supplied × Nat) :
    List (Written D R I) × Option RefusedEntry × Option SearchResult :=
  let (envelope, index) := numbered
  let refusal := refusal T S policy provider envelope.toContextEnvelope
  let recordable := policy.records_address envelope.source_url
  (if recordable then
      screens_written T S policy provider envelope.toContextEnvelope ++
        [.crossing (crossed T S policy provider received index envelope.toContextEnvelope)]
    else [],
    if recordable then refusal.map fun two => ⟨index + 1, received, two.2⟩ else none,
    if refusal.isSome then none else some (shown envelope))

def deliver (sha256_digest : Bytes → String) (adapter_version recorded_in : String) (acquisition : SearchAcquisition) :
    List (Written D R I) × Answer :=
  let turns := acquisition.envelopes.zipIdx.map
    (deliver_one T S policy acquisition.provider acquisition.envelopes.length)
  let results := turns.filterMap (·.2.2)
  (turns.flatMap (·.1),
    { provider := acquisition.provider, results, received := acquisition.envelopes.length
      refused := acquisition.envelopes.length - results.length
      refusals := turns.filterMap (·.2.1), charge := acquisition.charge, capability := acquisition.capability
      endpoint := acquisition.endpoint, http_status := acquisition.http_status
      provider_request_id := acquisition.provider_request_id, adapter_version
      response_sha256 := sha256_digest acquisition.raw_response, latency_ms := acquisition.latency_ms, recorded_in })

/-! ### Why a result is refused -/

inductive Cause where
  | authority (reason : String)
  | deniedProvider | unlistedProvider | textless | deniedHost
  | rule (index : Nat) (pattern : HostPattern)
  | licenceRule (index : Nat) (pattern : HostPattern) (wanted : String) (declared : Bool)
  | hostless | unlistedHost | licence
  | injection (count : Nat) (summary : String)

namespace Cause

def sentence : Cause → AgentText
  | authority reason => "Principal authority refused: " ++ reason ++ "."
  | deniedProvider => "The job denies provider " ++ provider ++ "."
  | unlistedProvider => "The job's allowed-provider list does not include " ++ provider ++ "."
  | textless => "The provider returned no excerpt for this result."
  | deniedHost => "The job denies this source's host."
  | rule index pattern => "access rule " ++ toString (index + 1) ++ " (" ++ pattern.as_written ++ ")" ++
      " refuses this source's host."
  | licenceRule index pattern wanted declared =>
    "access rule " ++ toString (index + 1) ++ " (" ++ pattern.as_written ++ ")" ++ " requires licence " ++ T.debug wanted ++
      if declared then " for this source's host, and the supplier declared another."
      else " for this source's host, and no supplier declared one."
  | hostless => "This source has no host, and the job's allowed-host list admits only the hosts it names."
  | unlistedHost => "This source's host is outside the job's allowed-host list."
  | licence => "No supplier declared a licence this job accepts."
  | injection count summary => "The injection screen matched " ++ toString count ++ " known prompt-injection phrasing" ++
      (if count = 1 then "" else "s") ++ " (" ++ summary ++ ") in " ++ "the text screened."

def Of : Cause → Prop
  | authority reason => policy.fail_closed = some reason
  | deniedProvider => provider ∈ policy.job.denied_providers
  | unlistedProvider => policy.job.allowed_providers ≠ [] ∧ provider ∉ policy.job.allowed_providers
  | deniedHost => policy.job.denied_source_hosts ≠ []
  | rule index pattern => (index, pattern, .refuse) ∈ policy.job.access_rules
  | licenceRule index pattern wanted _ => (index, pattern, .requireLicence wanted) ∈ policy.job.access_rules
  | hostless | unlistedHost => policy.job.allowed_source_hosts ≠ []
  | licence => policy.job.required_licences ≠ []
  | textless => True
  | injection count summary => ∃ text, S.injection text = some (count, summary)

end Cause

def Caused (told : AgentText) : Prop := ∃ cause : Cause, cause.Of S policy provider ∧ told = cause.sentence T provider

section

variable {T S policy provider} {breach : Breach}

theorem breach_caused {mode : PolicyMode} {found : Breach} (cause : Cause) (of_ : cause.Of S policy provider)
    (sentence : found.agent_reason = cause.sentence T provider) (refused : .breach mode found = Verdict.refused breach) :
    Caused T S policy provider breach.agent_reason := by
  cases mode with
  | strict =>
    cases refused
    exact ⟨cause, of_, sentence⟩
  | prefer => cases refused
  | observe => cases refused

theorem provider_caused (refused : provider_eligibility policy.job provider = .refused breach) :
    Caused T S policy provider breach.agent_reason := by
  unfold provider_eligibility at refused
  split at refused
  · next denied => exact breach_caused .deniedProvider denied rfl refused
  · split at refused
    · next unlisted =>
      refine breach_caused .unlistedProvider ?_ rfl refused
      simpa [Cause.Of] using unlisted
    · cases refused

theorem access_caused {host source_url : String} {licence : Option LicenceState}
    (refused : access_ruling T policy.job host source_url licence = .error (.refused breach)) :
    Caused T S policy provider breach.agent_reason := by
  unfold access_ruling at refused
  cases found : policy.job.access_rule_for host with
  | none =>
    rw [found] at refused
    cases refused
  | some rule =>
    obtain ⟨index, pattern, action⟩ := rule
    have listed := List.mem_of_find?_eq_some found
    rw [found] at refused
    cases action with
    | allow => cases refused
    | requireMediation => cases refused
    | refuse => exact breach_caused (.rule index pattern) listed rfl (Except.error.inj refused)
    | requireLicence wanted =>
      match licence with
      | none => cases refused
      | some .unknown => exact breach_caused (.licenceRule index pattern wanted false) listed rfl (Except.error.inj refused)
      | some (.declared reference) =>
        by_cases same : reference = wanted
        · simp only [if_pos same] at refused
          cases refused
        · simp only [if_neg same] at refused
          exact breach_caused (.licenceRule index pattern wanted true) listed rfl (Except.error.inj refused)

theorem host_caused {host source_url : String} {named : Option String} {licence : Option LicenceState}
    (refused : source_host_admission T policy.job host source_url named licence = .refused breach) :
    Caused T S policy provider breach.agent_reason := by
  unfold source_host_admission at refused
  split at refused
  · next denied =>
    refine breach_caused .deniedHost ?_ rfl refused
    rintro none
    simp [none] at denied
  · split at refused
    · next verdict ruled =>
      rw [refused] at ruled
      exact access_caused ruled
    · split at refused
      · next outside =>
        have listed : policy.job.allowed_source_hosts ≠ [] := by
          rintro none
          simp [none] at outside
        split at refused
        · exact breach_caused .hostless listed rfl refused
        · exact breach_caused .unlistedHost listed rfl refused
      · cases refused

theorem source_caused {envelope : ContextEnvelope}
    (refused : source_admission_from T policy.job envelope (some provider) = .refused breach) :
    Caused T S policy provider breach.agent_reason := by
  unfold source_admission_from at refused
  dsimp only [Option.map_some, Option.getD_some] at refused
  split at refused
  · exact provider_caused refused
  · split at refused
    · cases refused
      exact ⟨.textless, trivial, rfl⟩
    · split at refused
      · split at refused
        · next unlicensed =>
          refine breach_caused .licence ?_ rfl refused
          rintro none
          simp [none] at unlicensed
        · exact provider_caused refused
      · exact host_caused refused

theorem injection_caused {source_ref : String} {text : List Char}
    (refused : injection_verdict S policy source_ref text = .refused breach) :
    Caused T S policy provider breach.agent_reason := by
  unfold injection_verdict at refused
  cases found : S.injection text with
  | none =>
    rw [found] at refused
    cases refused
  | some matched =>
    rw [found] at refused
    exact breach_caused (.injection matched.1 matched.2) ⟨text, found⟩ rfl refused

theorem two_caused {verdict : Verdict} {sentences : String × AgentText}
    (caused : ∀ breach, verdict = .refused breach → Caused T S policy provider breach.agent_reason)
    (refused : two verdict = some sentences) : Caused T S policy provider sentences.2 := by
  cases verdict with
  | refused breach =>
    cases refused
    exact caused breach rfl
  | allowed => cases refused
  | allowedWithBreach breach => cases refused

theorem refusal_caused {envelope : ContextEnvelope} {sentences : String × AgentText}
    (refused : refusal T S policy provider envelope = some sentences) : Caused T S policy provider sentences.2 := by
  unfold refusal at refused
  dsimp only at refused
  split at refused
  · refine two_caused (fun breach ruled => ?_) refused
    unfold SessionPolicy.admit_from_provider SessionPolicy.authority_ruling at ruled
    cases closed : policy.fail_closed with
    | none =>
      rw [closed] at ruled
      exact source_caused ruled
    | some reason =>
      rw [closed] at ruled
      cases ruled
      exact ⟨.authority reason, closed, rfl⟩
  · obtain ⟨text, _, ruled⟩ := Option.bind_eq_some_iff.mp refused
    exact two_caused (fun _ => injection_caused) ruled

end

def refused (envelope : Supplied) : Bool := (refusal T S policy provider envelope.toContextEnvelope).isSome

structure Crossed (received : Nat) (numbered : Supplied × Nat) (facts : SuppliedFacts D R I) : Prop where
  url : facts.url = numbered.1.source_url
  refusal : facts.refusal.isSome = refused T S policy provider numbered.1
  position : facts.told_position =
    if refused T S policy provider numbered.1 then some (numbered.2 + 1, received) else none

structure Entered (received : Nat) (numbered : Supplied × Nat) (entry : RefusedEntry) : Prop where
  position : entry.position = numbered.2 + 1
  of_ : entry.of_ = received
  reason : Caused T S policy provider entry.reason

structure InStep (acquisition : SearchAcquisition) (delivered : List (Written D R I) × Answer) : Prop where
  results : delivered.2.results = (acquisition.envelopes.filter fun envelope =>
    !refused T S policy acquisition.provider envelope).map shown
  received : delivered.2.received = acquisition.envelopes.length
  refused : delivered.2.refused + delivered.2.results.length = delivered.2.received
  crossings : List.Forall₂ (Crossed T S policy acquisition.provider acquisition.envelopes.length)
    (acquisition.envelopes.zipIdx.filter fun numbered => policy.records_address numbered.1.source_url)
    (delivered.1.filterMap Written.crossing?)
  floor : ∀ written ∈ delivered.1, policy.records_address written.url = true
  refusals : List.Forall₂ (Entered T S policy acquisition.provider acquisition.envelopes.length)
    (acquisition.envelopes.zipIdx.filter fun numbered => policy.records_address numbered.1.source_url &&
      Search.refused T S policy acquisition.provider numbered.1)
    delivered.2.refusals

def AlikeEnvelope (one other : Supplied) : Prop :=
  one = other ∨
    refused T S policy provider one = true ∧
      (refusal T S policy provider one.toContextEnvelope).map Prod.snd =
        (refusal T S policy provider other.toContextEnvelope).map Prod.snd ∧
      policy.records_address one.source_url = policy.records_address other.source_url

structure Alike (one other : SearchAcquisition) : Prop where
  rest : other = { one with envelopes := other.envelopes, raw_response := other.raw_response }
  envelopes : List.Forall₂ (AlikeEnvelope T S policy one.provider) one.envelopes other.envelopes

section

variable {T S policy provider}

theorem forall₂_filterMap {α β : Type} {R : α → β → Prop} {keeps : α → Bool} {f : α → Option β}
    (kept : ∀ a b, f a = some b → keeps a = true ∧ R a b) (left : ∀ a, f a = none → keeps a = false) (as : List α) :
    List.Forall₂ R (as.filter keeps) (as.filterMap f) := by
  induction as with
  | nil => exact .nil
  | cons a as ih =>
    cases found : f a with
    | none =>
      rw [List.filter_cons_of_neg (by simp [left a found]), List.filterMap_cons_none found]
      exact ih
    | some b =>
      obtain ⟨keeps, related⟩ := kept a b found
      rw [List.filter_cons_of_pos keeps, List.filterMap_cons_some found]
      exact .cons related ih

theorem filterMap_shown (keeps : Supplied → Bool) (envelopes : List Supplied) (start : Nat) :
    ((envelopes.zipIdx start).filterMap fun numbered => if keeps numbered.1 then none else some (shown numbered.1)) =
      (envelopes.filter fun envelope => !keeps envelope).map shown := by
  induction envelopes generalizing start with
  | nil => rfl
  | cons envelope envelopes ih =>
    rw [List.zipIdx_cons, List.filterMap_cons, ih, List.filter_cons]
    cases keeps envelope
    all_goals rfl

theorem map_zipIdx_of_alike {α β : Type} {R : α → α → Prop} {f : α × Nat → β} (same : ∀ a b i, R a b → f (a, i) = f (b, i))
    {one other : List α} (alike : List.Forall₂ R one other) (start : Nat) :
    (one.zipIdx start).map f = (other.zipIdx start).map f := by
  induction alike generalizing start with
  | nil => rfl
  | cons related _ ih => rw [List.zipIdx_cons, List.zipIdx_cons, List.map_cons, List.map_cons, same _ _ _ related, ih]

theorem crossings_of_turn (received : Nat) (numbered : Supplied × Nat) :
    (deliver_one (D := D) (R := R) (I := I) T S policy provider received numbered).1.filterMap Written.crossing? =
      (if policy.records_address numbered.1.source_url then
        some (crossed T S policy provider received numbered.2 numbered.1.toContextEnvelope) else none).toList := by
  unfold deliver_one screens_written
  dsimp only
  split
  · cases screened T policy provider numbered.1.toContextEnvelope
    all_goals rfl
  · rfl

theorem crossed_holds (received : Nat) (numbered : Supplied × Nat) :
    Crossed T S policy provider received numbered
      (crossed (D := D) (R := R) (I := I) T S policy provider received numbered.2 numbered.1.toContextEnvelope) where
  url := rfl
  refusal := Option.isSome_map
  position := by
    unfold crossed refused
    cases refusal T S policy provider numbered.1.toContextEnvelope
    all_goals rfl

theorem floor_of_turn {received : Nat} {numbered : Supplied × Nat} {written : Written D R I}
    (mem : written ∈ (deliver_one T S policy provider received numbered).1) :
    policy.records_address written.url = true := by
  unfold deliver_one screens_written at mem
  dsimp only at mem
  split at mem
  · next recordable =>
    have url : written.url = numbered.1.source_url := by
      rcases List.mem_append.mp mem with screen | crossing
      · split at screen
        · cases screen
        · rcases List.mem_pair.mp screen with pii | injection
          · rw [pii]
            rfl
          · rw [injection]
            rfl
      · rw [List.mem_singleton.mp crossing]
        rfl
    rw [url]
    exact recordable
  · cases mem

theorem turn_of_alike (received : Nat) {one other : Supplied} (index : Nat)
    (alike : AlikeEnvelope T S policy provider one other) :
    (deliver_one (D := D) (R := R) (I := I) T S policy provider received (one, index)).2 =
      (deliver_one (D := D) (R := R) (I := I) T S policy provider received (other, index)).2 := by
  rcases alike with rfl | ⟨refused, sentence, recorded⟩
  · rfl
  · unfold Search.refused at refused
    unfold deliver_one
    dsimp only
    rw [← recorded]
    cases first : refusal T S policy provider one.toContextEnvelope with
    | none =>
      rw [first] at refused
      cases refused
    | some two =>
      cases second : refusal T S policy provider other.toContextEnvelope with
      | none =>
        rw [first, second] at sentence
        cases sentence
      | some also =>
        rw [first, second] at sentence
        have told : two.2 = also.2 := Option.some.inj sentence
        rw [Option.map_some, Option.map_some, told]
        rfl

end

section

variable (sha256_digest : Bytes → String) (adapter_version recorded_in : String) (acquisition : SearchAcquisition)

theorem deliver_in_step : InStep T S policy acquisition
    (deliver (D := D) (R := R) (I := I) T S policy sha256_digest adapter_version recorded_in acquisition) where
  results := by
    show List.filterMap _ (List.map _ _) = _
    rw [List.filterMap_map]
    exact filterMap_shown (refused T S policy acquisition.provider) _ 0
  received := rfl
  refused := by
    show acquisition.envelopes.length - _ + _ = acquisition.envelopes.length
    apply Nat.sub_add_cancel
    refine (List.length_filterMap_le _ _).trans ?_
    rw [List.length_map, List.length_zipIdx]
  crossings := by
    show List.Forall₂ _ _ (List.filterMap _ (List.flatMap _ (List.map _ _)))
    rw [List.flatMap_map, List.filterMap_flatMap]
    simp only [crossings_of_turn]
    rw [← List.filterMap_eq_flatMap_toList]
    refine forall₂_filterMap (fun numbered facts crosses => ?_) (fun numbered unrecorded => ?_) _
    · split at crosses
      · next recordable =>
        cases crosses
        exact ⟨recordable, crossed_holds _ _⟩
      · cases crosses
    · split at unrecorded
      · cases unrecorded
      · next unrecordable => exact Bool.eq_false_iff.mpr unrecordable
  floor written mem := by
    obtain ⟨turn, turns, of_⟩ := List.mem_flatMap.mp mem
    obtain ⟨numbered, _, rfl⟩ := List.mem_map.mp turns
    exact floor_of_turn of_
  refusals := by
    show List.Forall₂ _ _ (List.filterMap _ (List.map _ _))
    rw [List.filterMap_map]
    refine forall₂_filterMap (fun numbered entry entered => ?_) (fun numbered silent => ?_) _
    · change (if _ then _ else none) = some entry at entered
      split at entered
      · next recordable =>
        obtain ⟨two, refused, rfl⟩ := Option.map_eq_some_iff.mp entered
        refine ⟨?_, rfl, rfl, refusal_caused refused⟩
        rw [recordable, Search.refused, refused]
        rfl
      · cases entered
    · change (if _ then _ else none) = none at silent
      split at silent
      · next recordable =>
        rw [recordable, Search.refused, Option.map_eq_none_iff.mp silent]
        rfl
      · next unrecordable => rw [Bool.eq_false_iff.mpr unrecordable, Bool.false_and]

theorem deliver_of_alike {other : SearchAcquisition} (alike : Alike T S policy acquisition other) :
    let deliver : SearchAcquisition → List (Written D R I) × Answer :=
      deliver T S policy sha256_digest adapter_version recorded_in
    (deliver other).2 = { (deliver acquisition).2 with response_sha256 := sha256_digest other.raw_response } := by
  obtain ⟨rest, envelopes⟩ := alike
  have turns := map_zipIdx_of_alike (f := fun numbered =>
    (deliver_one (D := D) (R := R) (I := I) T S policy acquisition.provider acquisition.envelopes.length numbered).2)
    (fun _ _ index related => turn_of_alike _ index related) envelopes 0
  have leaves {γ : Type} (leave : Option RefusedEntry × Option SearchResult → Option γ) := congrArg (List.filterMap leave) turns
  simp only [List.filterMap_map] at leaves
  have results := leaves Prod.snd
  have refusals := leaves Prod.fst
  cases other
  cases rest
  simp only [deliver, List.filterMap_map, ← envelopes.length_eq]
  exact congrArg₂ (fun results refusals => Answer.mk _ results _ (acquisition.envelopes.length - results.length) refusals
    _ _ _ _ _ _ _ _ _) results.symm refusals.symm

/-- The record and the answer are in step, and what the answer keeps of a refused result is its sentence and whether it was
recorded. -/
theorem record_and_answer_in_step :
    let deliver : SearchAcquisition → List (Written D R I) × Answer :=
      deliver T S policy sha256_digest adapter_version recorded_in
    InStep T S policy acquisition (deliver acquisition) ∧
      ∀ other, Alike T S policy acquisition other →
        (deliver other).2 = { (deliver acquisition).2 with response_sha256 := sha256_digest other.raw_response } :=
  ⟨deliver_in_step T S policy sha256_digest adapter_version recorded_in acquisition,
    fun _ => deliver_of_alike T S policy sha256_digest adapter_version recorded_in acquisition⟩

end

/-! ### Two results of one rule -/

def licence_policy : SessionPolicy where
  job :=
    { kind := "harness.session", prompt := "standing operator policy", policy_mode := .strict, objective := .maximiseQuality
      constraints := [.requiredLicence "CC-BY-4.0", .accessRule ⟨"news.example", false⟩ (.requireLicence "CC-BY-4.0")] }
  fail_closed := none
  records_address url := url ≠ "http://10.0.0.1/a"

def one_result (source_url host : String) (licence : LicenceState) : SearchAcquisition where
  provider := "exa"
  capability := "search"
  endpoint := "https://api.exa.ai/search"
  http_status := some 200
  latency_ms := 12
  provider_request_id := none
  charge := ⟨none, none⟩
  envelopes := [⟨⟨source_url, host, none, none, licence, some 1, some ['a']⟩, none⟩]
  raw_response := []

def refusals_of (acquisition : SearchAcquisition) : List RefusedEntry :=
  (deliver (D := Unit) (R := Unit) (I := Unit) Admission.loweredTexts ⟨fun _ _ => none, fun _ => none⟩ licence_policy
    (fun _ => "") "1" "record" acquisition).2.refusals

/-- One access rule refuses two results in two sentences, by the licence declared; and of two results refused in one sentence,
which differ in their address, the answer has an entry for the public one alone. -/
theorem refusals_beyond_the_rule :
    (licence_policy.job.access_rule_for "news.example" = some (1, ⟨"news.example", false⟩, .requireLicence "CC-BY-4.0") ∧
      refusals_of (one_result "https://news.example/a" "news.example" (.declared "MIT")) =
        [⟨1, 1, "access rule 2 (news.example) requires licence CC-BY-4.0 for this source's host, and the supplier declared " ++
          "another."⟩] ∧
      refusals_of (one_result "https://news.example/a" "news.example" .unknown) =
        [⟨1, 1, "access rule 2 (news.example) requires licence CC-BY-4.0 for this source's host, and no supplier declared " ++
          "one."⟩]) ∧
    refusals_of (one_result "https://docs.example/a" "docs.example" .unknown) =
        [⟨1, 1, "No supplier declared a licence this job accepts."⟩] ∧
      (refusal Admission.loweredTexts ⟨fun _ _ => none, fun _ => none⟩ licence_policy "exa"
        ⟨"http://10.0.0.1/a", "10.0.0.1", none, none, .unknown, some 1, some ['a']⟩).map Prod.snd =
          some "No supplier declared a licence this job accepts." ∧
      refusals_of (one_result "http://10.0.0.1/a" "10.0.0.1" .unknown) = [] := by
  decide +kernel

end

end CommonMeasure.Mediation.Search
