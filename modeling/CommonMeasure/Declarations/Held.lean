import CommonMeasure.Declarations.Cache

/-!
# The answer that is held

Over a run of calls the last answer of an origin rules, whatever failed after it.
-/

namespace CommonMeasure.Declarations

open Admission (PolicyMode)

inductive ProbeRuling where
  | allowed
  | refused (reason : Text) (expires_at : Int)
  | unread (reason : Text)
deriving DecidableEq

def ProbeRuling.of (attribution : RobotsOutcome → Text) (robots : RobotsOutcome) (now : Int) : ProbeRuling :=
  match robots.ruling with
  | .refused => .refused (attribution robots) (robots.expires_at.getD now)
  | .unreachable => .refused (attribution robots) (robots.expires_at.getD now)
  | .cut_short => .unread (attribution robots)
  | .allowed => .allowed
  | .unavailable => .allowed
  | .carried => .allowed

inductive Asking where
  | read_robots (mode : PolicyMode)
  | rule_probe

structure Call where
  asking : Asking
  url : Text
  now : Int
  /-- What a request for the file gives. -/
  answer : Answer

structure Result where
  robots : RobotsOutcome
  refused : Bool
  /-- What was asked for, where the slot was not used again. -/
  fresh : Option Probe
  /-- The probe that is remembered. -/
  kept : Option Probe

abbrev Files := Text → HostRecord

section

variable {Url : Type} (u : UrlCrate Url) (lossy : Bytes → Text) (attribution : RobotsOutcome → Text)

def Asking.refuses (robots : RobotsOutcome) (now : Int) : Asking → Bool
  | .read_robots mode => (robots.rule mode).refuses
  | .rule_probe => ProbeRuling.of attribution robots now ≠ .allowed

def call (files : Files) (c : Call) : Option Result × Files :=
  match read_robots_in u lossy (files (file_of u c.url)) c.url c.now c.answer with
  | none => (none, files)
  | some read =>
    (some {
      robots := read.robots
      refused := c.asking.refuses attribution read.robots c.now
      fresh := if read.probed.cache = .reused then none else some read.probed.probe
      kept := read.record.robots },
    Function.update files (file_of u c.url) read.record)

def run (files : Files) : List Call → List (Call × Option Result) × Files
  | [] => ([], files)
  | c :: calls =>
    let next := call u lossy attribution files c
    let rest := run next.2 calls
    ((c, next.1) :: rest.1, rest.2)

def resultsAt (file : Text) (log : List (Call × Option Result)) : List (Call × Result) :=
  log.filterMap fun entry => if file_of u entry.1.url = file then entry.2.map (entry.1, ·) else none

end

def lastAnswer (log : List (Call × Result)) : Option Probe :=
  (log.filterMap fun entry => entry.2.fresh.filter (·.answered)).getLast?

/-- What a request for the file gives a probe that can be kept: no refusal by the file itself, and an age a duration holds. -/
def Fits : Answer → Prop
  | .ok (_, response) =>
    is_success response.status = true ∨ robots_status_is_no_rules response.status = true →
      answer_age response.cache_control ≠ none
  | .error failure => failure.refused_by = none

inductive Shape (now : Int) (answer : Answer) (fresh : Probe) : Prop
  | answer (answered : fresh.answered = true) (reached : fresh.unreachable = false) (reusable : fresh.reusable_as_robots = true)
      (whole : fresh.cut_short = false) (sent : fresh.not_sent = false) (lasts : fresh.expires_at ≤ now + ROBOTS_CACHE_AGE)
  | failure (unanswered : fresh.answered = false) (reached : fresh.unreachable = true) (reusable : fresh.reusable_as_robots = true)
      (whole : fresh.cut_short = false) (sent : fresh.not_sent = false) (lasts : fresh.expires_at = now + FAILURE_CACHE_AGE)
  | unsent (unanswered : fresh.answered = false) (own : fresh.unreachable = false) (stale : fresh.reusable_as_robots = false)
      (whole : fresh.cut_short = false) (refused : ∃ reason, answer = .error (.not_sent reason))
  | cut (unanswered : fresh.answered = false) (own : fresh.unreachable = false) (cut_short : fresh.cut_short = true)

theorem fresh_robots {lossy : Bytes → Text} {url : Text} {now : Int} {answer : Answer} (fits : Fits answer) :
    ∃ fresh, fresh_probe lossy url now .robots answer = some fresh ∧ fresh.url = url ∧ fresh.fetched_at = now ∧
      Shape now answer fresh := by
  cases answer with
  | error failure =>
    refine ⟨failed_probe url now failure, rfl, rfl, rfl, ?_⟩
    cases failure with
    | unreachable reason => exact .failure rfl rfl rfl rfl rfl rfl
    | not_sent reason => exact .unsent rfl rfl rfl rfl ⟨reason, rfl⟩
    | backoff reason => exact .cut rfl rfl rfl
    | redirect_declined target reason => exact .failure rfl rfl rfl rfl rfl rfl
    | cut_short reason sent => exact .cut rfl (by cases sent <;> rfl) rfl
    | robots_refused url reason expires_at => cases fits
  | ok given =>
    obtain ⟨final_url, response⟩ := given
    by_cases kept : is_success response.status = true ∨ robots_status_is_no_rules response.status = true
    · obtain ⟨age, aged⟩ := Option.ne_none_iff_exists'.mp (fits kept)
      have reads : fresh_probe lossy url now .robots (.ok (final_url, response)) =
          some (answered_probe url now (now + age) final_url response.status (read_body lossy .robots response)) := by
        rcases kept with success | rules
        · simp [fresh_probe, aged, success]
        · simp [fresh_probe, aged, rules]
      refine ⟨_, reads, rfl, rfl, ?_⟩
      have lasts : now + age ≤ now + ROBOTS_CACHE_AGE := Int.add_le_add_left (answer_age_le aged) now
      have body : is_success response.status = true →
          (read_body lossy .robots response).1.isSome = true ∧ (read_body lossy .robots response).2.2 = none := by
        intro success
        unfold read_body
        rw [success]
        simp only [Bool.not_true, Bool.false_eq_true, if_false]
        split <;> exact ⟨rfl, rfl⟩
      by_cases success : is_success response.status = true
      · obtain ⟨some_, clean⟩ := body success
        exact .answer (by simp [Probe.answered, answered_probe, some_]) (by simp [Probe.unreachable, answered_probe, success])
          (by simp [Probe.reusable_as_robots, answered_probe, success, some_, clean]) rfl rfl lasts
      · have rules := kept.resolve_left success
        have nothing : read_body lossy .robots response = (none, none, none) := by simp [read_body, success]
        exact .answer (by simp [Probe.answered, answered_probe, rules]) (by simp [Probe.unreachable, answered_probe, rules])
          (by simp [Probe.reusable_as_robots, answered_probe, success, rules, nothing]) rfl rfl lasts
    · simp only [not_or, Bool.not_eq_true] at kept
      have reads : fresh_probe lossy url now .robots (.ok (final_url, response)) =
          some (answered_probe url now (now + FAILURE_CACHE_AGE) final_url response.status
            (none, none, some (answered_with url response.status))) := by
        simp [fresh_probe, kept.1, kept.2]
      refine ⟨_, reads, rfl, rfl, ?_⟩
      exact .failure (by simp [Probe.answered, answered_probe, kept.2]) (by simp [Probe.unreachable, answered_probe, kept.1, kept.2])
        (by simp [Probe.reusable_as_robots, answered_probe, kept.1, kept.2]) rfl rfl rfl

/-! ### What the record of an origin holds -/

variable {Url : Type} {file robots_url : Text}

structure Standing (robots_url : Text) (record : HostRecord) (log : List (Call × Result)) (last : Int) : Prop where
  slot : ∀ probe, record.robots = some probe → probe.url = robots_url
  aside : ∀ probe, record.robots_held = some probe → probe.url = robots_url ∧ probe.answered = true
  given : ∀ answer, lastAnswer log = some answer → record.robots = some answer ∨
    record.robots_held = some answer ∧ ∀ probe, record.robots = some probe → probe.answered = false
  silent : lastAnswer log = none → record.robots_held = none ∧ ∀ probe, record.robots = some probe → probe.answered = false
  failed : ∀ probe, record.robots = some probe → probe.answered = false → probe.unreachable = true ∨
    probe.reusable_as_robots = false
  kept : ∀ entry ∈ log, ∀ probe, entry.2.fresh = some probe → (probe.answered = true ∨ probe.unreachable = true) →
    probe.reusable_as_robots = true ∧ (probe.unreachable = true → probe.expires_at = probe.fetched_at + FAILURE_CACHE_AGE) ∧
      (record.robots = some probe ∨ probe.expires_at ≤ last)

structure Rules (u : UrlCrate Url) (log : List (Call × Result)) (c : Call) (result : Result) : Prop where
  ruled : ∀ answer, lastAnswer (log ++ [(c, result)]) = some answer → result.robots.reading = some (read_answer u answer c.url)
  current : ∀ entry ∈ log, ∀ probe, entry.2.fresh = some probe → probe.answered = true → c.now < probe.expires_at →
    result.fresh = none
  ages : ∀ probe, result.fresh = some probe → probe.answered = true →
    probe.fetched_at = c.now ∧ probe.expires_at ≤ probe.fetched_at + ROBOTS_CACHE_AGE
  failing : ∀ entry ∈ log, ∀ probe, entry.2.fresh = some probe → probe.unreachable = true →
    c.now < probe.fetched_at + FAILURE_CACHE_AGE → result.fresh = none
  refused : lastAnswer (log ++ [(c, result)]) = none → (∀ reason, c.answer ≠ .error (.not_sent reason)) → result.refused = true
  own : ∀ probe, result.fresh = some probe → probe.not_sent = true ∨ probe.cut_short = true → probe.unreachable = false ∧
    ∀ kept, result.kept = some kept → kept.unreachable = false ∧ kept.reusable_as_robots = false

theorem lastAnswer_append (log : List (Call × Result)) (c : Call) (result : Result) :
    lastAnswer (log ++ [(c, result)]) = (result.fresh.filter (·.answered)).or (lastAnswer log) := by
  unfold lastAnswer
  rw [List.filterMap_append, List.getLast?_append]
  cases fresh : result.fresh with
  | none => simp [fresh]
  | some probe => by_cases answered : probe.answered = true <;> simp [fresh, answered, Option.filter]

theorem lastAnswer_answered {log : List (Call × Result)} {answer : Probe} (given : lastAnswer log = some answer) :
    answer.answered = true := by
  obtain ⟨entry, _, is⟩ := List.mem_filterMap.mp (List.mem_of_getLast? given)
  exact (Option.filter_eq_some_iff.mp is).2

theorem standing_start (robots_url : Text) (last : Int) : Standing robots_url .default [] last := by
  constructor <;> simp [HostRecord.default, lastAnswer]

theorem refuses_unread {attribution : RobotsOutcome → Text} {robots : RobotsOutcome} (unread : robots.reading = none)
    (failed : robots.unreachable = true ∨ robots.cut_short = true) (asking : Asking) (now : Int) :
    asking.refuses attribution robots now = true := by
  have ruling : robots.ruling = .unreachable ∨ robots.ruling = .cut_short := by
    unfold RobotsOutcome.ruling
    rw [unread]
    by_cases unreachable : robots.unreachable = true
    · exact Or.inl (if_pos unreachable)
    · exact Or.inr (by simp [unreachable, failed.resolve_left unreachable])
  cases asking with
  | read_robots mode => rcases ruling with is | is <;> simp [Asking.refuses, RobotsOutcome.rule, RobotsOutcome.refuses, is]
  | rule_probe => rcases ruling with is | is <;> simp [Asking.refuses, ProbeRuling.of, is]

theorem read_held_ruled {u : UrlCrate Url} {held : Option Probe} {url : Text} {probed : Probed} {answer : Probe}
    (is : probed.probe = answer ∧ answer.answered = true ∨ held = some answer ∧ answer.url = robots_url ∧
      probed.probe.answered = false) :
    (read_held u held url robots_url probed).reading = some (read_answer u answer url) := by
  rcases is with ⟨rfl, answered⟩ | ⟨rfl, same, unanswered⟩
  · simp [read_held, answered]
  · simp [read_held, unanswered, same]

theorem read_held_none {u : UrlCrate Url} {url : Text} {probed : Probed} (unanswered : probed.probe.answered = false) :
    (read_held u none url robots_url probed).reading = none := by
  simp [read_held, unanswered]

section

variable {u : UrlCrate Url} {attribution : RobotsOutcome → Text} {record : HostRecord} {log : List (Call × Result)} {last : Int}
  {c : Call} {result : Result}

theorem reused_rules (standing : Standing robots_url record log last) (later : last ≤ c.now) {probe : Probe}
    (slot : record.robots = some probe) (reusable : probe.reusable_as_robots = true)
    (reads : result.robots = read_held u record.robots_held c.url robots_url ⟨probe, .reused, record.robots⟩)
    (refused : result.refused = c.asking.refuses attribution result.robots c.now) (nothing : result.fresh = none) :
    Standing robots_url record (log ++ [(c, result)]) c.now ∧ Rules u log c result := by
  have same : lastAnswer (log ++ [(c, result)]) = lastAnswer log := by simp [lastAnswer_append, nothing]
  constructor
  · refine ⟨standing.slot, standing.aside, same ▸ standing.given, same ▸ standing.silent, standing.failed, ?_⟩
    intro entry member fresh is kind
    rcases List.mem_append.mp member with before | here
    · obtain ⟨shape, failure, where_⟩ := standing.kept entry before fresh is kind
      refine ⟨shape, failure, ?_⟩
      rcases where_ with held | gone
      · exact Or.inl held
      · exact Or.inr (by omega)
    · obtain rfl := List.mem_singleton.mp here
      rw [nothing] at is
      cases is
  · refine ⟨?_, fun _ _ _ _ _ _ => nothing, by simp [nothing], fun _ _ _ _ _ _ => nothing, ?_, by simp [nothing]⟩
    · intro answer given
      rw [same] at given
      rw [reads]
      apply read_held_ruled
      rcases standing.given answer given with here | ⟨held, unanswered⟩
      · obtain rfl := Option.some.inj (slot.symm.trans here)
        exact Or.inl ⟨rfl, lastAnswer_answered given⟩
      · exact Or.inr ⟨held, (standing.aside answer held).1, unanswered probe slot⟩
    · intro none_ _
      rw [same] at none_
      obtain ⟨held, unanswered⟩ := standing.silent none_
      have unreachable : probe.unreachable = true := by
        rcases standing.failed probe slot (unanswered probe slot) with reached | stale
        · exact reached
        · rw [reusable] at stale
          cases stale
      rw [refused]
      apply refuses_unread
      · rw [reads, held]
        exact read_held_none (unanswered probe slot)
      · rw [reads]
        exact Or.inl unreachable

theorem held_unanswered (standing : Standing robots_url record log last) {probed : Probed} (asked : probed.cache ≠ .reused)
    (unanswered : probed.probe.answered = false) :
    (∀ answer, lastAnswer log = some answer → held_after record robots_url probed = some answer) ∧
      (lastAnswer log = none → held_after record robots_url probed = none) ∧
      ∀ held, held_after record robots_url probed = some held → held.url = robots_url ∧ held.answered = true := by
  have set_aside {previous : Probe} (slot : record.robots = some previous) :
      held_after record robots_url probed = if previous.answered then some previous else record.robots_held := by
    have same := standing.slot previous slot
    cases answered : previous.answered <;> simp [held_after, asked, unanswered, slot, same, answered, Option.filter]
  have kept (empty : record.robots = none) : held_after record robots_url probed = record.robots_held := by
    simp [held_after, asked, unanswered, empty]
  cases slot : record.robots with
  | none =>
    rw [kept slot]
    refine ⟨fun answer given => ?_, fun none_ => (standing.silent none_).1, standing.aside⟩
    rcases standing.given answer given with here | held
    · rw [slot] at here
      cases here
    · exact held.1
  | some previous =>
    rw [set_aside slot]
    refine ⟨fun answer given => ?_, fun none_ => ?_, fun held is => ?_⟩
    · rcases standing.given answer given with here | ⟨held, none_⟩
      · obtain rfl := Option.some.inj (slot.symm.trans here)
        rw [if_pos (lastAnswer_answered given)]
      · rw [none_ previous slot, if_neg Bool.false_ne_true, held]
    · obtain ⟨held, none_⟩ := standing.silent none_
      rw [none_ previous slot, if_neg Bool.false_ne_true, held]
    · split at is
      · rename_i answered
        obtain rfl := Option.some.inj is
        exact ⟨standing.slot previous slot, answered⟩
      · exact standing.aside held is

structure FreshCall (u : UrlCrate Url) (attribution : RobotsOutcome → Text) (robots_url : Text) (record : HostRecord)
    (log : List (Call × Result)) (last : Int) (c : Call) (result : Result) (fresh : Probe) (probed : Probed) : Prop where
  standing : Standing robots_url record log last
  later : last ≤ c.now
  url : fresh.url = robots_url
  dated : fresh.fetched_at = c.now
  dead : live record.robots robots_url c.now .robots = none
  probes : probed = ⟨fresh, fresh.decision, fresh.kept⟩
  reads : result.robots = read_held u (held_after record robots_url probed) c.url robots_url probed
  refused : result.refused = c.asking.refuses attribution result.robots c.now
  asked : result.fresh = some fresh
  keeps : result.kept = fresh.kept

theorem decision_asked (fresh : Probe) : fresh.decision ≠ .reused := by
  unfold Probe.decision
  split <;> simp

theorem kept_eq {fresh probe : Probe} (is : fresh.kept = some probe) : probe = fresh := by
  unfold Probe.kept at is
  split at is
  · cases is
  · exact (Option.some.inj is).symm

namespace FreshCall

variable {fresh : Probe} {probed : Probed}

section

variable (asks : FreshCall u attribution robots_url record log last c result fresh probed)
include asks

theorem probe : probed.probe = fresh := by rw [asks.probes]

theorem cache : probed.cache ≠ .reused := by
  rw [asks.probes]
  exact decision_asked fresh

theorem same {probe : Probe} (is : result.fresh = some probe) : probe = fresh :=
  (Option.some.inj (asks.asked.symm.trans is)).symm

theorem over_by {entry : Call × Result} (member : entry ∈ log) {probe : Probe} (is : entry.2.fresh = some probe)
    (kind : probe.answered = true ∨ probe.unreachable = true) :
    probe.reusable_as_robots = true ∧ (probe.unreachable = true → probe.expires_at = probe.fetched_at + FAILURE_CACHE_AGE) ∧
      probe.expires_at ≤ c.now := by
  have later := asks.later
  obtain ⟨reusable, failure, here | past_⟩ := asks.standing.kept entry member probe is kind
  · refine ⟨reusable, failure, ?_⟩
    by_contra ahead
    have now : c.now < probe.expires_at := by omega
    have dead := asks.dead
    rw [here] at dead
    simp [live, asks.standing.slot probe here, now, reusable, Option.filter] at dead
  · exact ⟨reusable, failure, by omega⟩

theorem current : ∀ entry ∈ log, ∀ probe, entry.2.fresh = some probe → probe.answered = true → c.now < probe.expires_at →
    result.fresh = none := by
  intro entry member probe is answered ahead
  have past_ := (asks.over_by member is (Or.inl answered)).2.2
  omega

theorem failing : ∀ entry ∈ log, ∀ probe, entry.2.fresh = some probe → probe.unreachable = true →
    c.now < probe.fetched_at + FAILURE_CACHE_AGE → result.fresh = none := by
  intro entry member probe is reached ahead
  obtain ⟨_, failure, past_⟩ := asks.over_by member is (Or.inr reached)
  have ends := failure reached
  omega

theorem remembered (holds : fresh.answered = true ∨ fresh.unreachable = true → fresh.reusable_as_robots = true ∧
      (fresh.unreachable = true → fresh.expires_at = fresh.fetched_at + FAILURE_CACHE_AGE) ∧ fresh.kept = some fresh) :
    ∀ entry ∈ log ++ [(c, result)], ∀ probe, entry.2.fresh = some probe →
      (probe.answered = true ∨ probe.unreachable = true) → probe.reusable_as_robots = true ∧
        (probe.unreachable = true → probe.expires_at = probe.fetched_at + FAILURE_CACHE_AGE) ∧
          (fresh.kept = some probe ∨ probe.expires_at ≤ c.now) := by
  intro entry member probe is kind
  rcases List.mem_append.mp member with before | here
  · obtain ⟨reusable, failure, past_⟩ := asks.over_by before is kind
    exact ⟨reusable, failure, Or.inr past_⟩
  · obtain rfl := List.mem_singleton.mp here
    obtain rfl := asks.same is
    obtain ⟨reusable, failure, kept⟩ := holds kind
    exact ⟨reusable, failure, Or.inl kept⟩

theorem answer_rules (answered : fresh.answered = true) (reached : fresh.unreachable = false)
    (reusable : fresh.reusable_as_robots = true) (whole : fresh.cut_short = false) (sent : fresh.not_sent = false)
    (lasts : fresh.expires_at ≤ c.now + ROBOTS_CACHE_AGE) :
    Standing robots_url { record with robots := fresh.kept, robots_held := held_after record robots_url probed }
      (log ++ [(c, result)]) c.now ∧ Rules u log c result := by
  have last_ : lastAnswer (log ++ [(c, result)]) = some fresh := by
    simp [lastAnswer_append, asks.asked, answered, Option.filter]
  have kept : fresh.kept = some fresh := by simp [Probe.kept, whole]
  have held : held_after record robots_url probed = none := by simp [held_after, asks.cache, asks.probe, answered]
  refine ⟨⟨?_, by simp [held], ?_, by simp [last_], ?_, asks.remembered fun _ => ⟨reusable, by simp [reached], kept⟩⟩,
    ?_, asks.current, ?_, asks.failing, by simp [last_], ?_⟩
  · intro probe is
    rw [kept_eq is, asks.url]
  · intro answer given
    exact Or.inl (kept.trans (last_.symm.trans given))
  · intro probe is unanswered
    rw [kept_eq is, answered] at unanswered
    cases unanswered
  · intro answer given
    obtain rfl := Option.some.inj (last_.symm.trans given)
    rw [asks.reads]
    exact read_held_ruled (Or.inl ⟨asks.probe, answered⟩)
  · intro probe is _
    obtain rfl := asks.same is
    have dated := asks.dated
    exact ⟨dated, by omega⟩
  · intro probe is own
    obtain rfl := asks.same is
    simp [whole, sent] at own

section

variable (answered : fresh.answered = false)
include answered

theorem last_kept : lastAnswer (log ++ [(c, result)]) = lastAnswer log := by
  simp [lastAnswer_append, asks.asked, answered, Option.filter]

theorem failure_stands
    (failed : ∀ probe, fresh.kept = some probe → probe.unreachable = true ∨ probe.reusable_as_robots = false)
    (holds : fresh.answered = true ∨ fresh.unreachable = true → fresh.reusable_as_robots = true ∧
      (fresh.unreachable = true → fresh.expires_at = fresh.fetched_at + FAILURE_CACHE_AGE) ∧ fresh.kept = some fresh) :
    Standing robots_url { record with robots := fresh.kept, robots_held := held_after record robots_url probed }
      (log ++ [(c, result)]) c.now := by
  have last_ := asks.last_kept answered
  obtain ⟨given, silent, aside⟩ := held_unanswered asks.standing asks.cache (asks.probe ▸ answered)
  have unanswered (probe : Probe) (is : fresh.kept = some probe) : probe.answered = false := by rw [kept_eq is, answered]
  exact ⟨fun probe is => by rw [kept_eq is, asks.url], aside, fun answer is => Or.inr ⟨given answer (last_ ▸ is), unanswered⟩,
    fun none_ => ⟨silent (last_ ▸ none_), unanswered⟩, fun probe is _ => failed probe is, asks.remembered holds⟩

theorem failure_rules
    (unread : (∀ reason, c.answer ≠ .error (.not_sent reason)) → fresh.unreachable = true ∨ fresh.cut_short = true)
    (own : fresh.not_sent = true ∨ fresh.cut_short = true → fresh.unreachable = false ∧
      ∀ kept, fresh.kept = some kept → kept.unreachable = false ∧ kept.reusable_as_robots = false) :
    Rules u log c result := by
  have last_ := asks.last_kept answered
  have unanswered : probed.probe.answered = false := asks.probe ▸ answered
  obtain ⟨given, silent, aside⟩ := held_unanswered asks.standing asks.cache unanswered
  refine ⟨fun answer is => ?_, asks.current, fun probe is is_answer => ?_, asks.failing, fun none_ sent => ?_,
    fun probe is its_own => ?_⟩
  · have held := given answer (last_ ▸ is)
    rw [asks.reads]
    exact read_held_ruled (Or.inr ⟨held, (aside answer held).1, unanswered⟩)
  · obtain rfl := asks.same is
    rw [answered] at is_answer
    cases is_answer
  · have held := silent (last_ ▸ none_)
    rw [asks.refused]
    apply refuses_unread
    · rw [asks.reads, held]
      exact read_held_none unanswered
    · rw [asks.reads]
      show probed.probe.unreachable = true ∨ probed.probe.cut_short = true
      rw [asks.probe]
      exact unread sent
  · obtain rfl := asks.same is
    obtain ⟨unreachable, stale⟩ := own its_own
    exact ⟨unreachable, fun kept held => stale kept (asks.keeps ▸ held)⟩

end

end

theorem rules (asks : FreshCall u attribution robots_url record log last c result fresh probed)
    (shape : Shape c.now c.answer fresh) :
    Standing robots_url { record with robots := fresh.kept, robots_held := held_after record robots_url probed }
      (log ++ [(c, result)]) c.now ∧ Rules u log c result := by
  cases shape with
  | answer answered reached reusable whole sent lasts => exact asks.answer_rules answered reached reusable whole sent lasts
  | failure unanswered reached reusable whole sent lasts =>
    have kept : fresh.kept = some fresh := by simp [Probe.kept, whole]
    have dated := asks.dated
    exact ⟨asks.failure_stands unanswered (fun probe is => Or.inl (kept_eq is ▸ reached)) fun _ =>
        ⟨reusable, fun _ => by omega, kept⟩,
      asks.failure_rules unanswered (fun _ => Or.inl reached) (by simp [whole, sent])⟩
  | unsent unanswered own stale whole not_sent =>
    obtain ⟨reason, is⟩ := not_sent
    exact ⟨asks.failure_stands unanswered (fun probe is => Or.inr (kept_eq is ▸ stale)) (by simp [unanswered, own]),
      asks.failure_rules unanswered (fun sent => (sent reason is).elim) fun _ =>
        ⟨own, fun kept held => by rw [kept_eq held]; exact ⟨own, stale⟩⟩⟩
  | cut unanswered own cut_short =>
    have empty : fresh.kept = none := by simp [Probe.kept, cut_short]
    exact ⟨asks.failure_stands unanswered (by simp [empty]) (by simp [unanswered, own]),
      asks.failure_rules unanswered (fun _ => Or.inr cut_short) fun _ => ⟨own, by simp [empty]⟩⟩

end FreshCall

end

/-! ### The run -/

section

variable {u : UrlCrate Url} {lossy : Bytes → Text} {attribution : RobotsOutcome → Text}

theorem call_rules {files : Files} {log : List (Call × Result)} {last : Int} {c : Call} (is_file : file_of u c.url = file)
    (is_url : robots_url_of u c.url = robots_url) (fits : Fits c.answer) (standing : Standing robots_url (files file) log last)
    (later : last ≤ c.now) :
    ∃ result, (call u lossy attribution files c).1 = some result ∧ Rules u log c result ∧
      Standing robots_url ((call u lossy attribution files c).2 file) (log ++ [(c, result)]) c.now := by
  subst is_file is_url
  cases alive : live (files (file_of u c.url)).robots (robots_url_of u c.url) c.now .robots with
  | some probe =>
    obtain ⟨slot, holds⟩ := Option.filter_eq_some_iff.mp alive
    have reusable : probe.reusable_as_robots = true := by
      simp only [Bool.and_eq_true] at holds
      simpa using holds.2
    let robots := read_held u (files (file_of u c.url)).robots_held c.url (robots_url_of u c.url)
      ⟨probe, .reused, (files (file_of u c.url)).robots⟩
    let result : Result :=
      ⟨robots, c.asking.refuses attribution robots c.now, none, (files (file_of u c.url)).robots⟩
    have calls : call u lossy attribution files c = (some result, files) := by
      simp [call, read_robots_in, cached_probe, alive, held_after, result, robots]
    have both : Standing (robots_url_of u c.url) (files (file_of u c.url)) (log ++ [(c, result)]) c.now ∧
      Rules u log c result :=
      reused_rules standing later slot reusable rfl rfl rfl
    rw [calls]
    exact ⟨result, rfl, both.2, both.1⟩
  | none =>
    obtain ⟨fresh, probed, at_, dated, shape⟩ := @fresh_robots lossy (robots_url_of u c.url) c.now c.answer fits
    have decision := decision_asked fresh
    let kept : Probed := ⟨fresh, fresh.decision, fresh.kept⟩
    let held := held_after (files (file_of u c.url)) (robots_url_of u c.url) kept
    let robots := read_held u held c.url (robots_url_of u c.url) kept
    let result : Result := ⟨robots, c.asking.refuses attribution robots c.now, some fresh, fresh.kept⟩
    let record : HostRecord := { files (file_of u c.url) with robots := fresh.kept, robots_held := held }
    have calls : call u lossy attribution files c = (some result, Function.update files (file_of u c.url) record) := by
      simp [call, read_robots_in, cached_probe, alive, probed, decision, kept, held, robots, result, record]
    have both : Standing (robots_url_of u c.url) record (log ++ [(c, result)]) c.now ∧ Rules u log c result :=
      FreshCall.rules ⟨standing, later, at_, dated, alive, rfl, rfl, rfl, rfl, rfl⟩ shape
    rw [calls]
    exact ⟨result, rfl, both.2, by simpa using both.1⟩

theorem call_apart {files : Files} {c : Call} (other : file_of u c.url ≠ file) :
    (call u lossy attribution files c).2 file = files file := by
  unfold call
  split
  · rfl
  · exact Function.update_of_ne (Ne.symm other) _ _

theorem run_append (files : Files) (a b : List Call) :
    run u lossy attribution files (a ++ b) =
      ((run u lossy attribution files a).1 ++ (run u lossy attribution (run u lossy attribution files a).2 b).1,
        (run u lossy attribution (run u lossy attribution files a).2 b).2) := by
  induction a generalizing files with
  | nil => rfl
  | cons c a ih => simp [run, ih]

theorem resultsAt_append (file : Text) (a b : List (Call × Option Result)) :
    resultsAt u file (a ++ b) = resultsAt u file a ++ resultsAt u file b := List.filterMap_append

def Own (u : UrlCrate Url) (file robots_url : Text) (c : Call) : Prop :=
  file_of u c.url = file → robots_url_of u c.url = robots_url ∧ Fits c.answer

theorem run_standing {calls : List Call} (own : ∀ c ∈ calls, Own u file robots_url c)
    (ordered : calls.Pairwise (·.now ≤ ·.now)) {next : Int} (before : ∀ c ∈ calls, c.now ≤ next) :
    ∃ last, last ≤ next ∧ Standing robots_url ((run u lossy attribution (fun _ => .default) calls).2 file)
      (resultsAt u file (run u lossy attribution (fun _ => .default) calls).1) last := by
  induction calls using List.reverseRecOn generalizing next with
  | nil => exact ⟨next, Int.le_refl _, standing_start robots_url next⟩
  | append_singleton calls c ih =>
    simp only [List.forall_mem_append, List.forall_mem_singleton] at own before
    obtain ⟨earlier, _, least⟩ := List.pairwise_append.mp ordered
    obtain ⟨last, by_, standing⟩ := ih own.1 earlier fun e member => least e member c (List.mem_singleton_self c)
    rw [run_append, resultsAt_append]
    generalize run u lossy attribution (fun _ => .default) calls = past_ at standing ⊢
    by_cases here : file_of u c.url = file
    · obtain ⟨is_url, fits⟩ := own.2 here
      have stands : ∃ result, (call u lossy attribution past_.2 c).1 = some result ∧
        Rules u (resultsAt u file past_.1) c result ∧
          Standing robots_url ((call u lossy attribution past_.2 c).2 file) (resultsAt u file past_.1 ++ [(c, result)]) c.now :=
        call_rules here is_url fits standing by_
      obtain ⟨result, gave, _, stands⟩ := stands
      refine ⟨c.now, before.2, ?_⟩
      simpa [run, resultsAt, here, gave] using stands
    · refine ⟨last, le_trans by_ before.2, ?_⟩
      simpa [run, resultsAt, here, call_apart here] using standing

/-- Over every run, in whatever order and with whatever failures, each call at the origin's file is ruled by the last answer given,
where every call at that file is for the origin's `robots.txt` and no answer is kept longer than a duration holds. -/
theorem held_kept {calls : List Call} {c : Call} (own : ∀ e ∈ calls ++ [c], Own u file robots_url e)
    (ordered : (calls ++ [c]).Pairwise (·.now ≤ ·.now)) (here : file_of u c.url = file) :
    ∃ result, (call u lossy attribution (run u lossy attribution (fun _ => .default) calls).2 c).1 = some result ∧
      Rules u (resultsAt u file (run u lossy attribution (fun _ => .default) calls).1) c result := by
  simp only [List.forall_mem_append, List.forall_mem_singleton] at own
  obtain ⟨earlier, _, least⟩ := List.pairwise_append.mp ordered
  obtain ⟨last, by_, standing⟩ := run_standing own.1 earlier fun e member => least e member c (List.mem_singleton_self c)
  obtain ⟨is_url, fits⟩ := own.2 here
  obtain ⟨result, gave, rules, _⟩ := call_rules here is_url fits standing by_
  exact ⟨result, gave, rules⟩

end

structure HostUrl where
  user : Text
  path : Text
deriving DecidableEq

def HostUrl.text (url : HostUrl) : Text :=
  "https://".toList ++ (if url.user = [] then [] else url.user ++ ['@']) ++ "a.example".toList ++ url.path

def plainUrl : HostUrl := ⟨[], "/x".toList⟩
def userUrl : HostUrl := ⟨['u'], "/x".toList⟩

def oneHost : UrlCrate HostUrl where
  parse := fun text => [plainUrl, userUrl].find? (·.text = text)
  path := HostUrl.path
  query := fun _ => none
  host_str := fun _ => some "a.example".toList
  domain := fun _ => some "a.example".toList
  set_username := fun url user => { url with user }
  set_password := fun url _ => url
  set_host := fun url _ => some url
  set_fragment := fun url _ => url
  before_path := fun url => { url with path := [] }.text
  from_path := HostUrl.path
  scheme := fun _ => "https".toList
  port_or_known_default := fun _ => some 443
  set_path := fun url path => { url with path }
  set_query := fun url _ => url
  to_string := HostUrl.text
  join := fun _ _ => none
  path_set := id
  to_lowercase := to_ascii_lowercase

def fromBytes (bytes : Bytes) : Text := bytes.map fun byte => Char.ofUInt8 byte

def allowing : Answer :=
  .ok ("https://a.example/robots.txt".toList, ⟨200, "User-agent: *\nAllow: /\n".toList.map fun c => c.toUInt8, none⟩)

def down : Answer := .error (.unreachable "timed out".toList)

def asks (url : HostUrl) (now : Int) (answer : Answer) : Call := ⟨.read_robots .strict, url.text, now, answer⟩

/-- A page named with user information takes the answer away from a page without: after both files fail the second is refused,
though the last answer allows it. -/
theorem held_lost :
    ∃ (calls : List Call) (c : Call), (∀ e ∈ calls, same_origin oneHost e.url c.url = true) ∧
      (calls ++ [c]).Pairwise (·.now ≤ ·.now) ∧
      (lastAnswer (resultsAt oneHost "a.example.json".toList
          (run oneHost fromBytes (fun _ => []) (fun _ => .default) calls).1)).map (fun answer => (read_answer oneHost answer c.url).crawlable) =
        some (some true) ∧
      ((call oneHost fromBytes (fun _ => []) (run oneHost fromBytes (fun _ => []) (fun _ => .default) calls).2 c).1.map
          fun result => (result.refused, result.robots.reading)) = some (true, none) :=
  ⟨[asks plainUrl 0 allowing, asks userUrl (seconds 60) down], asks plainUrl (seconds 120) down,
    by decide, by decide, by decide, by decide⟩

theorem held_kept_two_days :
    ∃ result, (call oneHost fromBytes (fun _ => [])
        (run oneHost fromBytes (fun _ => []) (fun _ => .default) [asks plainUrl 0 allowing]).2 (asks plainUrl (seconds 172800) down)).1 =
          some result ∧
      Rules oneHost (resultsAt oneHost "a.example.json".toList
        (run oneHost fromBytes (fun _ => []) (fun _ => .default) [asks plainUrl 0 allowing]).1) (asks plainUrl (seconds 172800) down) result := by
  apply @held_kept _ "a.example.json".toList "https://a.example/robots.txt".toList
  · intro e member _
    simp only [List.singleton_append, List.mem_cons, List.not_mem_nil, or_false] at member
    rcases member with rfl | rfl
    · exact ⟨by decide, fun _ => by decide⟩
    · exact ⟨by decide, rfl⟩
  · decide
  · decide

end CommonMeasure.Declarations
