import CommonMeasure.Instances.Attempt

namespace CommonMeasure.Instances

open Json

variable {Pid : Type} {L : Libraries} {s : System Pid}

structure SameRequest (a b : Attempt) : Prop where
  hub : a.hub = b.hub
  operation : a.operation = b.operation
  instance_ : a.instance_ = b.instance_
  body : a.body = b.body

theorem SameRequest.refl (a : Attempt) : SameRequest a a := ⟨rfl, rfl, rfl, rfl⟩

theorem SameRequest.symm {a b : Attempt} (same : SameRequest a b) : SameRequest b a :=
  ⟨same.hub.symm, same.operation.symm, same.instance_.symm, same.body.symm⟩

theorem SameRequest.trans {a b c : Attempt} (one : SameRequest a b) (other : SameRequest b c) : SameRequest a c :=
  ⟨one.hub.trans other.hub, one.operation.trans other.operation, one.instance_.trans other.instance_,
    one.body.trans other.body⟩

def Keeps (attempts : String → Option Attempt) (key : String) (attempt : Attempt) : Prop :=
  ∃ kept, attempts key = some kept ∧ SameRequest kept attempt

structure For (job : Job) (attempt : Attempt) : Prop where
  hub : attempt.hub = job.edge.hub
  operation : attempt.operation = job.operation
  instance_ : attempt.instance_ = job.instance_

structure SentAs (x : Sent) (attempt : Attempt) : Prop where
  hub : x.hub = attempt.hub
  operation : x.operation = attempt.operation
  instance_ : x.instance_ = attempt.instance_
  body : x.body = attempt.body
  path : x.path = pathOf x.operation x.instance_

/-- What a process is about to send or write is its job's, and kept where it was looked up or written. -/
def Phase.Bound (attempts : String → Option Attempt) : Phase → Prop
  | .idle | .opening _ => True
  | .writing job attempt => For job attempt
  | .sending job attempt | .recording job attempt => For job attempt ∧ Keeps attempts job.key attempt

structure Bound (s : System Pid) : Prop where
  sent : ∀ x ∈ s.sent, ∃ kept, s.attempts x.key = some kept ∧ SentAs x kept
  phases : ∀ pid, (s.phase pid).Bound s.attempts

def Unraced (s : System Pid) : Act Pid → Prop
  | .keeps pid =>
    match s.phase pid with
    | .writing job attempt => ∀ kept, s.attempts job.key = some kept → SameRequest kept attempt
    | _ => True
  | _ => True

/-! ### One command -/

theorem takes_for {job : Job} {kept attempt : Attempt} (is : job.takes L kept = .ok attempt) :
    attempt = kept ∧ For job kept := by
  unfold Job.takes at is
  split at is
  · cases is
  · rename_i same
    split at is
    · cases is
    · rename_i hub
      rw [not_or, not_not, not_not] at same
      cases is
      exact ⟨rfl, not_not.mp hub, same.1, same.2⟩

theorem build_for {job : Job} {attempt : Attempt} (is : job.build = .ok attempt) : For job attempt := by
  unfold Job.build at is
  cases built : job.body with
  | error => rw [built] at is; cases is
  | ok body =>
    rw [built] at is
    cases is
    exact ⟨rfl, rfl, rfl⟩

theorem sent_same (attempt : Attempt) (operation : Operation) (answer : Except String Answer) :
    SameRequest (attempt.sent operation answer) attempt := ⟨rfl, rfl, rfl, rfl⟩

theorem For.of_same {job : Job} {a b : Attempt} (for_ : For job a) (same : SameRequest b a) : For job b :=
  ⟨same.hub.trans for_.hub, same.operation.trans for_.operation, same.instance_.trans for_.instance_⟩

def Preserves (before after : String → Option Attempt) : Prop :=
  ∀ key a, before key = some a → Keeps after key a

theorem Preserves.refl (attempts : String → Option Attempt) : Preserves attempts attempts :=
  fun _ a is => ⟨a, is, .refl a⟩

theorem Preserves.trans {a b c : String → Option Attempt} (one : Preserves a b) (other : Preserves b c) :
    Preserves a c := by
  intro key held is
  obtain ⟨kept, is', same⟩ := one key held is
  obtain ⟨last, is'', same'⟩ := other key kept is'
  exact ⟨last, is'', same'.trans same⟩

theorem Preserves.keeps {before after : String → Option Attempt} {key : String} {a : Attempt}
    (preserves : Preserves before after) (keeps : Keeps before key a) : Keeps after key a := by
  obtain ⟨kept, is, same⟩ := keeps
  obtain ⟨last, is', same'⟩ := preserves key kept is
  exact ⟨last, is', same'.trans same⟩

theorem Preserves.phase {before after : String → Option Attempt} {phase : Phase} (preserves : Preserves before after)
    (bound : phase.Bound before) : phase.Bound after := by
  cases phase with
  | idle => trivial
  | opening => trivial
  | writing => exact bound
  | sending => exact ⟨bound.1, preserves.keeps bound.2⟩
  | recording => exact ⟨bound.1, preserves.keeps bound.2⟩

theorem SentAs.of_same {x : Sent} {a b : Attempt} (sent : SentAs x a) (same : SameRequest b a) : SentAs x b :=
  ⟨sent.hub.trans same.hub.symm, sent.operation.trans same.operation.symm, sent.instance_.trans same.instance_.symm,
    sent.body.trans same.body.symm, sent.path⟩

theorem preserves_keep {key : String} {attempt : Attempt}
    (same : ∀ kept, s.attempts key = some kept → SameRequest kept attempt) :
    Preserves s.attempts (s.keep key attempt).attempts := by
  intro key' a is
  by_cases here : key' = key
  · subst here
    exact ⟨attempt, Function.update_self .., (same a is).symm⟩
  · exact ⟨a, by rw [← is]; exact Function.update_of_ne here .., .refl a⟩

theorem keeps_keep {key : String} {attempt : Attempt} : Keeps (s.keep key attempt).attempts key attempt :=
  ⟨attempt, Function.update_self .., .refl _⟩

theorem Keeps.same {key : String} {attempt : Attempt} (keeps : Keeps s.attempts key attempt) :
    ∀ kept, s.attempts key = some kept → SameRequest kept attempt := by
  intro kept is
  obtain ⟨held, is', same⟩ := keeps
  cases is.symm.trans is'
  exact same

theorem bound_start (attempts : String → Option Attempt) : Bound (System.start attempts : System Pid) :=
  ⟨fun _ listed => (nomatch listed), fun _ => trivial⟩

section

variable [DecidableEq Pid]

theorem Bound.at_ (bound : Bound s) {pid : Pid} {phase : Phase} (next : phase.Bound s.attempts) : Bound (s.at_ pid phase) := by
  refine ⟨bound.sent, fun other => ?_⟩
  show (Function.update s.phase pid phase other).Bound s.attempts
  by_cases here : other = pid
  · rw [here, Function.update_self]
    exact next
  · rw [Function.update_of_ne here]
    exact bound.phases other

omit [DecidableEq Pid] in
theorem Bound.keep (bound : Bound s) {key : String} {attempt : Attempt}
    (same : ∀ kept, s.attempts key = some kept → SameRequest kept attempt) : Bound (s.keep key attempt) := by
  have preserves := preserves_keep same
  refine ⟨fun x listed => ?_, fun pid => preserves.phase (bound.phases pid)⟩
  obtain ⟨kept, is, sent⟩ := bound.sent x listed
  obtain ⟨last, is', same'⟩ := preserves x.key kept is
  exact ⟨last, is', sent.of_same same'⟩

theorem step_bound (act : Act Pid) (bound : Bound s) (unraced : Unraced s act) :
    Bound (step L s act) ∧ Preserves s.attempts (step L s act).attempts := by
  have idle {pid : Pid} : Bound (s.at_ pid .idle) := bound.at_ trivial
  cases act with
  | begins pid key command readings =>
    unfold step
    dsimp only
    split
    · split
      · split
        · exact ⟨bound.at_ trivial, .refl _⟩
        · exact ⟨bound, .refl _⟩
      · exact ⟨bound, .refl _⟩
    · exact ⟨bound, .refl _⟩
  | looks pid =>
    unfold step
    dsimp only
    split
    · split
      · rename_i kept found
        split
        · rename_i attempt taken
          obtain ⟨rfl, for_⟩ := takes_for taken
          exact ⟨bound.at_ ⟨for_, attempt, found, .refl _⟩, .refl _⟩
        · exact ⟨idle, .refl _⟩
      · split
        · rename_i built
          exact ⟨bound.at_ (build_for built), .refl _⟩
        · exact ⟨idle, .refl _⟩
    · exact ⟨bound, .refl _⟩
  | keeps pid =>
    unfold Unraced at unraced
    unfold step
    dsimp only at unraced ⊢
    split
    · rename_i job attempt here
      rw [here] at unraced
      have for_ : For job attempt := by
        have at_ := bound.phases pid
        rw [here] at at_
        exact at_
      exact ⟨(bound.keep unraced).at_ ⟨for_, keeps_keep⟩, preserves_keep unraced⟩
    · exact ⟨bound, .refl _⟩
  | sends pid answer =>
    unfold step
    dsimp only
    split
    · rename_i job attempt here
      obtain ⟨for_, keeps⟩ : For job attempt ∧ Keeps s.attempts job.key attempt := by
        have at_ := bound.phases pid
        rw [here] at at_
        exact at_
      have sent_ : Bound { s with sent := s.sent ++ [(⟨job.key, job.edge.hub, job.path, attempt.operation,
          job.instance_, attempt.body⟩ : Sent)] } := by
        refine ⟨fun x listed => ?_, bound.phases⟩
        rcases List.mem_append.mp listed with listed | listed
        · exact bound.sent x listed
        · cases List.mem_singleton.mp listed
          obtain ⟨kept, is, same⟩ := keeps
          refine ⟨kept, is, SentAs.of_same ⟨for_.hub.symm, rfl, for_.instance_.symm, rfl, ?_⟩ same⟩
          rw [for_.operation]
          exact job.addressed
      split
      · rename_i operation _
        obtain ⟨kept, is, same⟩ := keeps
        have also := sent_same attempt operation answer
        exact ⟨sent_.at_ ⟨for_.of_same also, kept, is, same.trans also.symm⟩, .refl _⟩
      · exact ⟨sent_.at_ trivial, .refl _⟩
    · exact ⟨bound, .refl _⟩
  | records pid =>
    unfold step
    dsimp only
    split
    · rename_i job attempt here
      have keeps : Keeps s.attempts job.key attempt := by
        have at_ := bound.phases pid
        rw [here] at at_
        exact at_.2
      exact ⟨(bound.keep keeps.same).at_ trivial, preserves_keep keeps.same⟩
    · exact ⟨bound, .refl _⟩
  | stops pid => exact ⟨idle, .refl _⟩

theorem run_bound {acts : List (Act Pid)} (bound : Bound s) (unraced : AlongRun (step L) Unraced s acts) :
    Bound (runWith (step L) s acts) ∧ Preserves s.attempts (runWith (step L) s acts).attempts := by
  induction acts generalizing s with
  | nil => exact ⟨bound, .refl _⟩
  | cons act acts ih =>
    obtain ⟨next, preserves⟩ := step_bound act bound unraced.1
    obtain ⟨last, more⟩ := ih next unraced.2
    exact ⟨last, preserves.trans more⟩

/-- Requests sent under one key are the same request, the one its attempt keeps, and an attempt once kept is replaced
only by one that sends the same. -/
theorem one_request (L : Libraries) (attempts : String → Option Attempt) (acts : List (Act Pid))
    (unraced : AlongRun (step L) Unraced (System.start attempts) acts) :
    (∀ x ∈ (runWith (step L) (System.start attempts) acts).sent,
      ∀ y ∈ (runWith (step L) (System.start attempts) acts).sent, x.key = y.key → x = y) ∧
    (∀ x ∈ (runWith (step L) (System.start attempts) acts).sent, ∃ kept,
      (runWith (step L) (System.start attempts) acts).attempts x.key = some kept ∧ SentAs x kept) ∧
    ∀ before after, acts = before ++ after → Preserves (runWith (step L) (System.start attempts) before).attempts
      (runWith (step L) (System.start attempts) acts).attempts := by
  have bound := (run_bound (bound_start attempts) unraced).1
  refine ⟨?_, bound.sent, ?_⟩
  · intro x here y there same
    obtain ⟨kept, is, sent⟩ := bound.sent x here
    obtain ⟨kept', is', sent'⟩ := bound.sent y there
    rw [same] at is
    cases is.symm.trans is'
    have operation := sent.operation.trans sent'.operation.symm
    have instance_ := sent.instance_.trans sent'.instance_.symm
    have path : x.path = y.path := by rw [sent.path, sent'.path, operation, instance_]
    obtain ⟨key, hub, path', operation', instance', body⟩ := x
    obtain ⟨key', hub', path'', operation'', instance'', body'⟩ := y
    have hubs := sent.hub.trans sent'.hub.symm
    have bodies := sent.body.trans sent'.body.symm
    dsimp only at same hubs path operation instance_ bodies
    rw [same, hubs, path, operation, instance_, bodies]
  · rintro before after rfl
    rw [AlongRun.append] at unraced
    rw [runWith_append]
    exact (run_bound (run_bound (bound_start attempts) unraced.1).1 unraced.2).2

end

def sampleLibraries : Libraries where
  verify_accepted := fun _ _ _ => .ok ()
  at_hub_origin := fun _ => " at https://hub.example"

def sampleRequest (expires_at : String) : Command :=
  .register {
    delegation := "d1"
    acceptance := "a1"
    host_name := "host"
    host_version := "1"
    purpose := "research"
    work := []
    session_id := none
    replace_session := false
    parent := none
    predecessor := none
    duties := []
    expires_at }

def sampleReadings : Readings where
  edge := .ok ⟨"key", "https://hub.example", "https://hub.example", "org"⟩
  records := fun _ => .ok none
  pointers := fun _ => .ok none
  named := fun _ _ is => (nomatch is)
  later := fun _ => true
  applied_policy := .ok (.object [("envelope", .null), ("applied_digest", .string "sha256:00")])
  now := "2026-09-18T00:00:00.000Z"

def again : List (Act Nat) :=
  [.begins 0 "k" (sampleRequest "2026-09-19T00:00:00.000Z") sampleReadings, .looks 0, .keeps 0, .sends 0 (.error "timeout"),
    .stops 0, .begins 0 "k" (sampleRequest "2026-09-20T00:00:00.000Z") sampleReadings, .looks 0,
    .sends 0 (.error "timeout")]

def atOnce : List (Act Nat) :=
  [.begins 0 "k" (sampleRequest "2026-09-19T00:00:00.000Z") sampleReadings, .looks 0,
    .begins 1 "k" (sampleRequest "2026-09-20T00:00:00.000Z") sampleReadings, .looks 1, .keeps 0,
    .sends 0 (.error "timeout"), .keeps 1, .sends 1 (.error "timeout")]

theorem begins_attempts [DecidableEq Pid] (pid : Pid) (key : String) (command : Command) (readings : Readings) :
    (step L s (.begins pid key command readings)).attempts = s.attempts := by
  unfold step
  dsimp only
  split
  · split
    · split <;> rfl
    · rfl
  · rfl

theorem looks_attempts [DecidableEq Pid] (pid : Pid) : (step L s (.looks pid)).attempts = s.attempts := by
  unfold step
  dsimp only
  split
  · split <;> split <;> rfl
  · rfl

theorem unraced_of_none {act : Act Pid} (none_ : ∀ key, s.attempts key = none) : Unraced s act := by
  unfold Unraced
  split
  · split
    · intro kept is
      rw [none_] at is
      cases is
    · trivial
  · trivial

theorem again_unraced : AlongRun (step sampleLibraries) Unraced (System.start fun _ => none) again := by
  refine ⟨trivial, trivial, unraced_of_none fun key => ?_, trivial, trivial, trivial, trivial, trivial, trivial⟩
  rw [looks_attempts, begins_attempts]
  rfl

theorem one_request_again : (runWith (step sampleLibraries) (System.start fun _ => none) again).sent.length = 2 ∧
    ∀ x ∈ (runWith (step sampleLibraries) (System.start fun _ => none) again).sent,
      ∀ y ∈ (runWith (step sampleLibraries) (System.start fun _ => none) again).sent, x.key = y.key → x = y :=
  ⟨by decide, (one_request sampleLibraries _ again again_unraced).1⟩

theorem two_bodies : ¬∀ (L : Libraries) (attempts : String → Option Attempt) (acts : List (Act Nat)),
    ∀ x ∈ (runWith (step L) (System.start attempts) acts).sent,
      ∀ y ∈ (runWith (step L) (System.start attempts) acts).sent, x.key = y.key → x = y := by
  intro law
  have told : ¬∀ x ∈ (runWith (step sampleLibraries) (System.start fun _ => none) atOnce).sent,
      ∀ y ∈ (runWith (step sampleLibraries) (System.start fun _ => none) atOnce).sent, x.key = y.key → x = y := by
    decide +kernel
  exact told (law sampleLibraries _ atOnce)

end CommonMeasure.Instances
