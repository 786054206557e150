import CommonMeasure.CrawlDelay.Turn
import CommonMeasure.Foundation.Runs

/-!
# Turns are spaced

The servers of an edge take turns and date them one after another, as the host's lock puts them.
-/

namespace CommonMeasure.CrawlDelay

/-! ### What a turn does -/

def kept (delay : Nat) : Nat := fromMillis (millis (min delay MAX_CRAWL_DELAY))

def Store.Beyond (store : Store) (now at_ : Int) : Prop := ∃ edge ∈ store.platform.checkedAdd now horizon, edge < at_

section

variable {store : Store} {host : String} {record after : Record} {delay budget : Nat} {now : Int} {pace : Pace}
  {files : Files} {ruling : DelayRuling}

theorem millis_kept (delay : Nat) : fromMillis (asI64 (min delay MAX_CRAWL_DELAY)) = kept delay := by
  unfold kept millis asI64 fromMillis MAX_CRAWL_DELAY seconds millisecond
  omega

theorem kept_le (delay : Nat) : kept delay ≤ delay ∧ kept delay ≤ MAX_CRAWL_DELAY := by
  unfold kept millis fromMillis MAX_CRAWL_DELAY seconds millisecond
  omega

theorem kept_whole (whole : delay % millisecond = 0) : kept delay = min delay MAX_CRAWL_DELAY := by
  unfold kept millis fromMillis MAX_CRAWL_DELAY seconds millisecond at *
  omega

theorem horizon_eq : horizon = seconds 120 := by decide

inductive Measured (store : Store) (now : Int) : Record → Option Int → Prop where
  | absent : Measured store now .absent none
  | unopened error : Measured store now (.unopened error) (some now)
  | notTurn error : Measured store now (.notTurn error) (some now)
  | turn request : ¬store.Beyond now request.at_ → Measured store now (.turn request) (some request.at_)
  | beyond request : store.Beyond now request.at_ → Measured store now (.turn request) (some now)

theorem any_beyond (at_ : Int) :
    (store.platform.checkedAdd now horizon).any (· < at_) = true ↔ store.Beyond now at_ := by
  simp [Store.Beyond, Option.any_eq_true]

theorem last_measured (record : Record) (now : Int) (pace : Pace) :
    Measured store now record (store.last host record now pace).1 := by
  unfold Store.last
  cases record with
  | absent => exact .absent
  | unopened error =>
    dsimp only
    split
    · exact .unopened error
    · exact .unopened error
  | notTurn error =>
    dsimp only
    split
    · exact .notTurn error
    · exact .notTurn error
  | turn request =>
    dsimp only
    split
    · rename_i far
      exact .beyond request ((any_beyond _).mp far)
    · rename_i near
      exact .turn request fun far => near ((any_beyond _).mpr far)

inductive Turned (store : Store) (host : String) (delay budget : Nat) (now : Int) (files : Files) (record : Record) :
    DelayRuling → Record → Prop where
  | kept ruling : ruling.outcome = .unavailable → Turned store host delay budget now files record ruling record
  | renamed ruling last sendAt error : ruling.outcome = .unavailable → files = .write error true →
      Measured store now record last → (store.next last delay now).getD now = sendAt →
      sendAt ≤ now + budget → Turned store host delay budget now files record ruling (.turn ⟨host, sendAt⟩)
  | clear ruling last : ruling.outcome = .clear → ruling.waitMs = some 0 → Measured store now record last →
      store.next last delay now = none →
      Turned store host delay budget now files record ruling (.turn ⟨host, now⟩)
  | waited ruling last next : ruling.outcome = .waited → ruling.waitMs = some (roundedUp (next - now).toNat) →
      Measured store now record last → store.next last delay now = some next →
      fromMillis (roundedUp (next - now).toNat) ≤ budget →
      Turned store host delay budget now files record ruling (.turn ⟨host, next⟩)
  | refused ruling last next : ruling.outcome = .refused → ruling.waitMs = some (roundedUp (next - now).toNat) →
      Measured store now record last → store.next last delay now = some next →
      budget < fromMillis (roundedUp (next - now).toNat) →
      Turned store host delay budget now files record ruling record

theorem next_after {last : Option Int} {next : Int} (found : store.next last delay now = some next) : now < next := by
  obtain ⟨_, later⟩ := Option.filter_eq_some_iff.mp found
  exact of_decide_eq_true later

theorem roundedUp_bounds {wait : Nat} (short : wait ≤ seconds 240) :
    wait ≤ fromMillis (roundedUp wait) ∧ fromMillis (roundedUp wait) < wait + millisecond := by
  unfold fromMillis roundedUp millis millisecond
  unfold seconds at short
  split <;> omega

theorem le_roundedUp {wait : Nat} (fits : fromMillis (roundedUp wait) ≤ seconds 120) : wait ≤ fromMillis (roundedUp wait) := by
  unfold fromMillis roundedUp millis millisecond at *
  unfold seconds at fits
  split at fits <;> split <;> omega

theorem turn_turned (fits : budget ≤ WAIT_BUDGET) (ruling : DelayRuling) (clear : ruling.outcome = .clear)
    (free : ruling.waitMs = some 0) {result : Except String Unit} {ruled : DelayRuling}
    (done : store.turn ruling delay budget now pace files record = (result, ruled, after)) :
    match result with
    | .ok _ => Turned store ruling.host delay budget now files record ruled after
    | .error _ => ∀ given, given.outcome = .unavailable →
        Turned store ruling.host delay budget now files record given after := by
  have measured : Measured store now record (store.last ruling.host record now pace).1 := last_measured record now pace
  unfold Store.turn at done
  by_cases named : ruling.host = ""
  · rw [if_pos named] at done
    cases done
    exact fun given => .kept given
  rw [if_neg named] at done
  cases files with
  | directory error =>
    cases done
    exact fun given => .kept given
  | lock refused =>
    cases refused with
    | _ =>
      cases done
      exact fun given => .kept given
  | done =>
    dsimp only at done
    cases found : store.next (store.last ruling.host record now pace).1 delay now with
    | none =>
      rw [found] at done
      cases done
      exact .clear _ _ clear free measured found
    | some next =>
      rw [found] at done
      dsimp only at done
      by_cases lapsed : budget < fromMillis (roundedUp (next - now).toNat)
      · rw [if_pos lapsed] at done
        cases done
        exact .refused _ _ next rfl rfl measured found lapsed
      · rw [if_neg lapsed] at done
        cases done
        exact .waited _ _ next rfl rfl measured found (Nat.le_of_not_lt lapsed)
  | write error renamed =>
    dsimp only at done
    cases found : store.next (store.last ruling.host record now pace).1 delay now with
    | none =>
      rw [found] at done
      cases renamed with
      | false =>
        cases done
        exact fun given => .kept given
      | true =>
        cases done
        exact fun given outcome => .renamed given _ now error outcome rfl measured (by rw [found]; rfl) (by omega)
    | some next =>
      rw [found] at done
      dsimp only at done
      by_cases lapsed : budget < fromMillis (roundedUp (next - now).toNat)
      · rw [if_pos lapsed] at done
        cases done
        exact .refused _ _ next rfl rfl measured found lapsed
      · rw [if_neg lapsed] at done
        have fit := Nat.le_of_not_lt lapsed
        cases renamed with
        | false =>
          cases done
          exact fun given => .kept given
        | true =>
          cases done
          have later := next_after found
          have waits : (next - now).toNat ≤ fromMillis (roundedUp (next - now).toNat) := by
            apply le_roundedUp
            unfold WAIT_BUDGET MAX_CRAWL_DELAY seconds at fits
            unfold seconds
            omega
          exact fun given outcome => .renamed given _ next error outcome rfl measured (by rw [found]; rfl) (by omega)

theorem takeTurn_turned (fits : budget ≤ WAIT_BUDGET) :
    Turned store host (min delay MAX_CRAWL_DELAY) budget now files record
      (store.takeTurn host delay budget now pace files record).1
      (store.takeTurn host delay budget now pace files record).2 := by
  unfold Store.takeTurn
  generalize min delay MAX_CRAWL_DELAY = short
  dsimp only
  split
  · rename_i done
    exact turn_turned fits _ rfl rfl done
  · rename_i done
    exact turn_turned fits _ rfl rfl done _ rfl

def Store.Within (store : Store) (now : Int) : Prop := now + seconds 180 ≤ store.platform.latest

def Dated (from_ clock : Int) (record : Record) : Prop :=
  ∃ request, record = .turn request ∧ from_ ≤ request.at_ ∧ (from_ ≤ clock ∨ request.at_ ≤ clock + horizon)

def Store.comes (store : Store) (last : Option Int) (delay : Nat) (now : Int) : Int :=
  (store.next last (min delay MAX_CRAWL_DELAY) now).getD now

theorem comes_eq {at_ : Int} (within : store.Within now) (near : at_ ≤ now + horizon) :
    store.comes (some at_) delay now = max now (at_ + kept delay) := by
  have cap := (kept_le delay).2
  have sum : store.platform.checkedAdd at_ (kept delay) = some (at_ + kept delay) := by
    apply if_pos
    rw [horizon_eq] at near
    unfold Store.Within at within
    unfold MAX_CRAWL_DELAY at cap
    unfold seconds at *
    omega
  unfold Store.comes Store.next
  rw [millis_kept, Option.bind_some, sum]
  by_cases later : now < at_ + kept delay
  · rw [Option.filter_some_pos (by simpa using later), Option.getD_some]
    omega
  · rw [Option.filter_some_neg (by simpa using later), Option.getD_none]
    omega

theorem near_or_beyond (within : store.Within now) (at_ : Int) : at_ ≤ now + horizon ∨ store.Beyond now at_ := by
  have sum : store.platform.checkedAdd now horizon = some (now + horizon) := by
    apply if_pos
    unfold Store.Within at within
    rw [horizon_eq]
    unfold seconds at *
    omega
  by_cases near : at_ ≤ now + horizon
  · exact Or.inl near
  · exact Or.inr ⟨_, sum, by omega⟩

theorem Store.Beyond.lt {at_ : Int} (beyond : store.Beyond now at_) : now + horizon < at_ := by
  obtain ⟨edge, sum, past⟩ := beyond
  rw [checkedAdd_some sum] at past
  exact past

theorem Dated.comes {from_ clock : Int} (dated : Dated from_ clock record) (passed : clock ≤ now)
    (within : store.Within now) {last : Option Int} (measured : Measured store now record last) (delay : Nat) :
    from_ + kept delay ≤ store.comes last delay now := by
  obtain ⟨request, rfl, held, bound⟩ := dated
  cases measured with
  | turn _ near =>
    have near := (near_or_beyond within request.at_).resolve_right near
    rw [comes_eq within near]
    omega
  | beyond _ far =>
    have far := far.lt
    rw [comes_eq within (by omega)]
    omega

theorem Dated.written {from_ sendAt : Int} (held : from_ ≤ sendAt) (fits : budget ≤ WAIT_BUDGET)
    (soon : sendAt ≤ now + budget) : Dated from_ now (.turn ⟨host, sendAt⟩) := by
  refine ⟨_, rfl, held, Or.inr ?_⟩
  rw [horizon_eq]
  unfold WAIT_BUDGET MAX_CRAWL_DELAY seconds at fits
  unfold seconds
  dsimp only
  omega

theorem Dated.later {from_ clock : Int} (dated : Dated from_ clock record) (passed : clock ≤ now) :
    Dated from_ now record := by
  obtain ⟨request, same, held, bound⟩ := dated
  exact ⟨request, same, held, by omega⟩

theorem waited_fits {wait : Nat} (fits : budget ≤ WAIT_BUDGET) (within : fromMillis (roundedUp wait) ≤ budget) :
    wait ≤ fromMillis (roundedUp wait) ∧ fromMillis (roundedUp wait) < wait + millisecond ∧ wait ≤ budget := by
  have slept : wait ≤ fromMillis (roundedUp wait) := by
    apply le_roundedUp
    unfold WAIT_BUDGET MAX_CRAWL_DELAY seconds at fits
    unfold seconds
    omega
  have short : wait ≤ seconds 240 := by
    unfold WAIT_BUDGET MAX_CRAWL_DELAY seconds at fits
    unfold seconds
    omega
  exact ⟨slept, (roundedUp_bounds short).2, by omega⟩

theorem Dated.turned {from_ clock : Int} (dated : Dated from_ clock record) (passed : clock ≤ now)
    (within : store.Within now) (fits : budget ≤ WAIT_BUDGET)
    (turned : Turned store host (min delay MAX_CRAWL_DELAY) budget now files record ruling after) : Dated from_ now after := by
  have comes {last : Option Int} (measured : Measured store now record last) : from_ ≤ store.comes last delay now := by
    have spaced := dated.comes passed within measured delay
    omega
  cases turned with
  | kept _ => exact dated.later passed
  | refused _ _ _ _ _ _ _ => exact dated.later passed
  | renamed last sendAt _ _ _ measured written soon =>
    exact Dated.written (written ▸ comes measured) fits soon
  | clear last _ _ measured found =>
    have held := comes measured
    unfold Store.comes at held
    rw [found, Option.getD_none] at held
    exact Dated.written held fits (by omega)
  | waited last next _ _ measured found wait =>
    have held := comes measured
    unfold Store.comes at held
    rw [found, Option.getD_some] at held
    have later := next_after found
    have soon := (waited_fits fits wait).2.2
    exact Dated.written held fits (by omega)

theorem sent_cases {at_ : Int} {result : Except String Unit} (done : store.sent host at_ pace files record = (result, after)) :
    (after = record ∧ (result = .ok () → ∃ request, record = .turn request ∧ at_ ≤ request.at_)) ∨
      after = .turn ⟨host, at_⟩ ∧ ∀ request, record = .turn request → request.at_ < at_ := by
  have write (missing : ∀ request, record = .turn request → request.at_ < at_)
      (done : Store.sent.write store host at_ pace files record = (result, after))
      (unrefused : ∀ refused, files ≠ .lock refused) (made : ∀ error, files ≠ .directory error) :
      (after = record ∧ (result = .ok () → ∃ request, record = .turn request ∧ at_ ≤ request.at_)) ∨
        after = .turn ⟨host, at_⟩ ∧ ∀ request, record = .turn request → request.at_ < at_ := by
    unfold Store.sent.write at done
    cases files with
    | done =>
      cases done
      exact Or.inr ⟨rfl, missing⟩
    | write error renamed =>
      cases renamed with
      | true =>
        cases done
        exact Or.inr ⟨rfl, missing⟩
      | false =>
        cases done
        exact Or.inl ⟨rfl, by simp⟩
    | directory error => exact absurd rfl (made error)
    | lock refused => exact absurd rfl (unrefused refused)
  unfold Store.sent at done
  split at done
  · cases done
    exact Or.inl ⟨rfl, by simp⟩
  · cases done
    exact Or.inl ⟨rfl, by simp⟩
  · cases done
    exact Or.inl ⟨rfl, by simp⟩
  · cases done
    exact Or.inl ⟨rfl, by simp⟩
  · rename_i made busy locked failed
    have unrefused : ∀ refused, files ≠ .lock refused := by
      intro refused same
      cases refused with
      | busy reason => exact busy reason same
      | lockFile cause => exact locked cause same
      | failed reason => exact failed reason same
    split at done
    · rename_i request
      split at done
      · rename_i recorded
        cases done
        exact Or.inl ⟨rfl, fun _ => ⟨request, rfl, recorded⟩⟩
      · rename_i earlier
        apply write _ done unrefused made
        intro other same
        cases same
        omega
    · rename_i none_recorded
      apply write _ done unrefused made
      intro request same
      exact absurd same (none_recorded request)

theorem Dated.sent {from_ clock : Int} (dated : Dated from_ clock record) (passed : clock ≤ now) {result : Except String Unit}
    (done : store.sent host now pace files record = (result, after)) : Dated from_ now after := by
  rcases sent_cases done with ⟨rfl, _⟩ | ⟨rfl, later⟩
  · exact dated.later passed
  · obtain ⟨request, same, held, _⟩ := dated
    have earlier := later request same
    exact ⟨_, rfl, by dsimp only; omega, Or.inl (by omega)⟩

end

/-! ### Runs -/

inductive Call where
  | turn (delay budget : Nat)
  | sent

structure Request where
  call : Call
  now : Int
  pace : Pace
  files : Files

section

variable (store : Store) (host : String)

def step (record : Record) (request : Request) : Record :=
  match request.call with
  | .turn delay budget => (store.takeTurn host delay budget request.now request.pace request.files record).2
  | .sent => (store.sent host request.now request.pace request.files record).2

def after (record : Record) (requests : List Request) : Record := runWith (step store host) record requests

def Request.ruling (request : Request) (record : Record) : Option DelayRuling :=
  match request.call with
  | .turn delay budget => some (store.takeTurn host delay budget request.now request.pace request.files record).1
  | .sent => none

def Request.sendInstant (request : Request) (ruling : DelayRuling) : Int :=
  request.now + fromMillis (ruling.waitMs.getD 0)

/-- The instant the next turns are measured from: that recorded by a turn that is sent, and that of a request dated. -/
def Request.Dates (request : Request) (record : Record) (at_ : Int) : Prop :=
  match request.call with
  | .turn _ _ => (∃ ruling ∈ request.ruling store host record, ruling.sends = true) ∧
      step store host record request = .turn ⟨host, at_⟩
  | .sent => (store.sent host request.now request.pace request.files record).1 = .ok () ∧ at_ = request.now

def Request.Allowed (request : Request) : Prop :=
  store.Within request.now ∧ ∀ delay budget, request.call = .turn delay budget → budget ≤ WAIT_BUDGET

def Unusable (now : Int) (record : Record) : Prop :=
  (∃ error, record = .unopened error) ∨ (∃ error, record = .notTurn error) ∨
    ∃ request, record = .turn request ∧ now + horizon < request.at_

structure Spaced (record : Record) (requests : List Request) : Prop where
  spaced : ∀ before first between second rest, requests = before ++ first :: (between ++ second :: rest) →
    ∀ from_ : Int, first.Dates store host (after store host record before) from_ →
      ∀ delay budget, second.call = .turn delay budget →
      ∀ ruling ∈ second.ruling store host (after store host record (before ++ first :: between)), ruling.sends = true →
        from_ + kept delay ≤ second.sendInstant ruling
  recorded : ∀ before request rest, requests = before ++ request :: rest →
    ∀ ruling ∈ request.ruling store host (after store host record before), ruling.sends = true →
      ∃ at_, after store host record (before ++ [request]) = .turn ⟨host, at_⟩ ∧
        at_ ≤ request.sendInstant ruling ∧ request.sendInstant ruling < at_ + millisecond
  owed : ∀ before request rest, requests = before ++ request :: rest → ∀ delay budget, request.call = .turn delay budget →
    Unusable request.now (after store host record before) →
      ∀ ruling ∈ request.ruling store host (after store host record before), ruling.sends = true →
        ruling.waitMs = some (millis (min delay MAX_CRAWL_DELAY)) ∧
          after store host record (before ++ [request]) = .turn ⟨host, request.now + kept delay⟩
  unsent : ∀ before request rest, requests = before ++ request :: rest →
    ∀ ruling ∈ request.ruling store host (after store host record before), ruling.sends = false →
      after store host record (before ++ [request]) = after store host record before ∨
        ruling.outcome = .unavailable ∧ ∃ error, request.files = .write error true
  fits : ∀ before request rest, requests = before ++ request :: rest → ∀ delay budget, request.call = .turn delay budget →
    ∀ ruling ∈ request.ruling store host (after store host record before), ruling.sends = true →
      fromMillis (ruling.waitMs.getD 0) ≤ budget
  pending : ∀ before request rest, requests = before ++ request :: rest → ∀ delay budget,
    request.call = .turn delay budget → delay % millisecond = 0 →
      ∀ ruling ∈ request.ruling store host (after store host record before), ruling.outcome ≠ .unavailable →
        ruling.waitMs = some (roundedUp (store.pendingWait delay request.now (after store host record before)))

end

section

variable {store : Store} {host : String} {record : Record} {request : Request} {ruling : DelayRuling}

theorem turned_of_call {delay budget : Nat} (call : request.call = .turn delay budget) (fits : budget ≤ WAIT_BUDGET)
    (ruled : ruling ∈ request.ruling store host record) :
    Turned store host (min delay MAX_CRAWL_DELAY) budget request.now request.files record ruling
      (step store host record request) := by
  unfold Request.ruling at ruled
  unfold step
  rw [call] at ruled ⊢
  obtain rfl := Option.some.inj ruled
  exact takeTurn_turned fits

theorem call_of_ruling (ruled : ruling ∈ request.ruling store host record) :
    ∃ delay budget, request.call = .turn delay budget := by
  unfold Request.ruling at ruled
  cases call : request.call with
  | turn delay budget => exact ⟨delay, budget, rfl⟩
  | sent =>
    rw [call] at ruled
    cases ruled

theorem turned_sent {delay budget : Nat} {now : Int} {files : Files} {after : Record}
    (turned : Turned store host (min delay MAX_CRAWL_DELAY) budget now files record ruling after) (fits : budget ≤ WAIT_BUDGET)
    (sends : ruling.sends = true) :
    ∃ last, Measured store now record last ∧ after = .turn ⟨host, store.comes last delay now⟩ ∧
      ruling.waitMs = some (roundedUp (store.comes last delay now - now).toNat) ∧ now ≤ store.comes last delay now ∧
      store.comes last delay now ≤ now + (fromMillis (ruling.waitMs.getD 0) : Nat) ∧
      now + (fromMillis (ruling.waitMs.getD 0) : Nat) < store.comes last delay now + millisecond ∧
      fromMillis (ruling.waitMs.getD 0) ≤ budget := by
  cases turned with
  | kept outcome => simp [DelayRuling.sends, outcome] at sends
  | renamed last sendAt error outcome => simp [DelayRuling.sends, outcome] at sends
  | refused last next outcome => simp [DelayRuling.sends, outcome] at sends
  | clear last outcome wait measured found =>
    have comes : store.comes last delay now = now := by rw [Store.comes, found, Option.getD_none]
    refine ⟨last, measured, by rw [comes], ?_⟩
    have nothing : fromMillis ((some 0).getD 0) = 0 := rfl
    rw [comes, wait, Int.sub_self, nothing]
    unfold millisecond
    exact ⟨rfl, by omega, by omega, by omega, Nat.zero_le _⟩
  | waited last next outcome wait measured found within =>
    have comes : store.comes last delay now = next := by rw [Store.comes, found, Option.getD_some]
    have later := next_after found
    obtain ⟨slept, soon, _⟩ := waited_fits fits within
    refine ⟨last, measured, by rw [comes], ?_⟩
    rw [comes, wait, Option.getD_some]
    exact ⟨rfl, by omega, by omega, by omega, within⟩

theorem unusable_comes {now : Int} (unusable : Unusable now record) (within : store.Within now) {last : Option Int}
    (measured : Measured store now record last) (delay : Nat) : store.comes last delay now = now + kept delay := by
  have fresh : store.comes (some now) delay now = now + kept delay := by
    rw [comes_eq within (by omega)]
    omega
  rcases unusable with ⟨error, rfl⟩ | ⟨error, rfl⟩ | ⟨request, rfl, far⟩
  · cases measured
    exact fresh
  · cases measured
    exact fresh
  · cases measured with
    | turn _ near =>
      rcases near_or_beyond within request.at_ with close | beyond
      · omega
      · exact absurd beyond near
    | beyond _ _ => exact fresh

theorem pendingWait_comes {delay : Nat} {now : Int} (whole : delay % millisecond = 0) (within : store.Within now)
    {last : Option Int} (measured : Measured store now record last) :
    (store.pendingWait delay now record : Int) = store.comes last delay now - now := by
  have fresh : store.comes (some now) delay now = now + min delay MAX_CRAWL_DELAY := by
    rw [comes_eq within (by omega), kept_whole whole]
    omega
  unfold Store.pendingWait
  cases measured with
  | absent =>
    have comes : store.comes none delay now = now := rfl
    rw [comes]
    simp
  | unopened error =>
    rw [fresh]
    dsimp only
    omega
  | notTurn error =>
    rw [fresh]
    dsimp only
    omega
  | turn request near =>
    dsimp only
    rw [if_neg fun far => near ((any_beyond _).mp far)]
    unfold Store.comes
    cases found : store.next (some request.at_) (min delay MAX_CRAWL_DELAY) now with
    | none => simp
    | some next =>
      have later := next_after found
      simp only [Option.getD_some]
      omega
  | beyond request far =>
    dsimp only
    rw [if_pos ((any_beyond _).mpr far), fresh]
    omega

theorem roundedUp_whole (delay : Nat) :
    roundedUp (fromMillis (millis (min delay MAX_CRAWL_DELAY))) = millis (min delay MAX_CRAWL_DELAY) := by
  unfold roundedUp fromMillis millis MAX_CRAWL_DELAY seconds millisecond
  split <;> omega

section

variable {delay budget : Nat} {now : Int} {files : Files} {after : Record}
  (turned : Turned store host (min delay MAX_CRAWL_DELAY) budget now files record ruling after)

include turned

theorem turned_unsent (unsent : ruling.sends = false) :
    after = record ∨ ruling.outcome = .unavailable ∧ ∃ error, files = .write error true := by
  cases turned with
  | kept _ => exact Or.inl rfl
  | refused _ _ _ _ _ _ _ => exact Or.inl rfl
  | renamed last sendAt error outcome written => exact Or.inr ⟨outcome, error, written⟩
  | clear last outcome => simp [DelayRuling.sends, outcome] at unsent
  | waited last next outcome => simp [DelayRuling.sends, outcome] at unsent

theorem turned_pending (whole : delay % millisecond = 0) (within : store.Within now)
    (available : ruling.outcome ≠ .unavailable) :
    ruling.waitMs = some (roundedUp (store.pendingWait delay now record)) := by
  have pending {last : Option Int} (measured : Measured store now record last) :
      store.pendingWait delay now record = (store.comes last delay now - now).toNat := by
    have same := pendingWait_comes whole within measured
    omega
  unfold Store.comes at pending
  cases turned with
  | kept outcome => exact absurd outcome available
  | renamed _ _ _ outcome => exact absurd outcome available
  | clear last _ wait measured found =>
    rw [wait, pending measured, found, Option.getD_none, Int.sub_self]
    rfl
  | waited last next _ wait measured found _ => rw [wait, pending measured, found, Option.getD_some]
  | refused last next _ wait measured found _ => rw [wait, pending measured, found, Option.getD_some]

end

theorem dated_step {from_ clock : Int} (dated : Dated from_ clock record) (passed : clock ≤ request.now)
    (allowed : request.Allowed store) : Dated from_ request.now (step store host record request) := by
  obtain ⟨within, fits⟩ := allowed
  unfold step
  cases call : request.call with
  | turn delay budget =>
    have budgeted := fits delay budget call
    exact dated.turned passed within budgeted (takeTurn_turned budgeted)
  | sent => exact dated.sent passed rfl

theorem dated_after {from_ clock : Int} (dated : Dated from_ clock record) {requests : List Request}
    (ordered : (requests.map Request.now).Pairwise (· ≤ ·)) (passed : ∀ request ∈ requests, clock ≤ request.now)
    (allowed : ∀ request ∈ requests, request.Allowed store) {next : Int} (latest : clock ≤ next)
    (before : ∀ request ∈ requests, request.now ≤ next) : Dated from_ next (after store host record requests) := by
  induction requests generalizing record clock with
  | nil => exact dated.later latest
  | cons request requests ih =>
    obtain ⟨first, ordered⟩ := List.pairwise_cons.mp ordered
    obtain ⟨now, rest⟩ := List.forall_mem_cons.mp passed
    obtain ⟨allowedNow, allowedRest⟩ := List.forall_mem_cons.mp allowed
    obtain ⟨latestNow, latestRest⟩ := List.forall_mem_cons.mp before
    apply ih (dated_step dated now allowedNow) ordered ?_ allowedRest latestNow latestRest
    intro other member
    exact first other.now (List.mem_map_of_mem member)

theorem dates_dated {from_ : Int} (allowed : request.Allowed store) (dates : request.Dates store host record from_) :
    Dated from_ request.now (step store host record request) := by
  unfold Request.Dates at dates
  cases call : request.call with
  | turn delay budget =>
    rw [call] at dates
    obtain ⟨⟨ruling, ruled, sends⟩, recorded⟩ := dates
    have fits := allowed.2 delay budget call
    obtain ⟨last, _, written, _, _, soon, _, budgeted⟩ := turned_sent (turned_of_call call fits ruled) fits sends
    rw [recorded]
    obtain rfl : from_ = store.comes last delay request.now := by
      have same := recorded.symm.trans written
      cases same
      rfl
    exact Dated.written (Int.le_refl _) fits (by omega)
  | sent =>
    rw [call] at dates
    obtain ⟨done, rfl⟩ := dates
    unfold step
    rw [call]
    have result : store.sent host request.now request.pace request.files record =
        (.ok (), (store.sent host request.now request.pace request.files record).2) := Prod.ext done rfl
    dsimp only
    rcases sent_cases result with ⟨same, recorded⟩ | ⟨same, _⟩
    · rw [same]
      obtain ⟨held, rfl, later⟩ := recorded rfl
      exact ⟨held, rfl, later, Or.inl (Int.le_refl _)⟩
    · rw [same]
      exact ⟨_, rfl, Int.le_refl _, Or.inl (Int.le_refl _)⟩

theorem after_append (record : Record) (requests more : List Request) :
    after store host record (requests ++ more) = after store host (after store host record requests) more :=
  runWith_append record requests more

theorem after_snoc (record : Record) (requests : List Request) (request : Request) :
    after store host record (requests ++ [request]) = step store host (after store host record requests) request :=
  runWith_append record requests [request]

/-- Whatever the record holds at first, the turns of every interleaving are spaced. -/
theorem turns_spaced (record : Record) (requests : List Request) (ordered : (requests.map Request.now).Pairwise (· ≤ ·))
    (allowed : ∀ request ∈ requests, request.Allowed store) : Spaced store host record requests := by
  have called {request : Request} (member : request ∈ requests) {delay budget : Nat}
      (call : request.call = .turn delay budget) : store.Within request.now ∧ budget ≤ WAIT_BUDGET :=
    ⟨(allowed request member).1, (allowed request member).2 delay budget call⟩
  have listed {before : List Request} {request : Request} {rest : List Request}
      (split : requests = before ++ request :: rest) : request ∈ requests := by
    rw [split]
    simp
  refine ⟨?_, ?_, ?_, ?_, ?_, ?_⟩
  · intro before first between second rest split from_ dates delay budget call ruling ruled sends
    obtain ⟨within, fits⟩ := called (show second ∈ requests by rw [split]; simp) call
    rw [split, List.map_append, List.map_cons, List.map_append, List.map_cons] at ordered
    obtain ⟨_, ordered, _⟩ := List.pairwise_append.mp ordered
    obtain ⟨firstBefore, ordered⟩ := List.pairwise_cons.mp ordered
    obtain ⟨betweenOrdered, _, across⟩ := List.pairwise_append.mp ordered
    have member : first ∈ requests := by rw [split]; simp
    have start := dates_dated (allowed first member) dates
    have dated : Dated from_ second.now (after store host record (before ++ first :: between)) := by
      rw [← List.singleton_append, ← List.append_assoc, after_append, after_snoc]
      apply dated_after start betweenOrdered
      · intro request listed
        exact firstBefore _ (List.mem_append_left _ (List.mem_map_of_mem listed))
      · intro request listed
        exact allowed request (by rw [split]; simp [listed])
      · exact firstBefore _ (List.mem_append_right _ List.mem_cons_self)
      · intro request listed
        exact across _ (List.mem_map_of_mem listed) _ List.mem_cons_self
    obtain ⟨last, measured, _, _, _, soon, _, _⟩ := turned_sent (turned_of_call call fits ruled) fits sends
    have comes := dated.comes (Int.le_refl _) within measured delay
    unfold Request.sendInstant
    omega
  · intro before request rest split ruling ruled sends
    obtain ⟨delay, budget, call⟩ := call_of_ruling ruled
    obtain ⟨_, fits⟩ := called (listed split) call
    obtain ⟨last, _, written, _, _, soon, late, _⟩ := turned_sent (turned_of_call call fits ruled) fits sends
    exact ⟨_, (after_snoc record before request).trans written, soon, late⟩
  · intro before request rest split delay budget call unusable ruling ruled sends
    obtain ⟨within, fits⟩ := called (listed split) call
    obtain ⟨last, measured, written, wait, _, _, _, _⟩ := turned_sent (turned_of_call call fits ruled) fits sends
    rw [unusable_comes unusable within measured delay] at written wait
    refine ⟨?_, (after_snoc record before request).trans written⟩
    have whole : (request.now + kept delay - request.now).toNat = fromMillis (millis (min delay MAX_CRAWL_DELAY)) := by
      unfold kept
      omega
    rw [wait, whole, roundedUp_whole]
  · intro before request rest split ruling ruled unsent
    obtain ⟨delay, budget, call⟩ := call_of_ruling ruled
    obtain ⟨_, fits⟩ := called (listed split) call
    have turned := turned_of_call call fits ruled
    rw [after_snoc]
    exact turned_unsent turned unsent
  · intro before request rest split delay budget call ruling ruled sends
    obtain ⟨_, fits⟩ := called (listed split) call
    obtain ⟨_, _, _, _, _, _, _, budgeted⟩ := turned_sent (turned_of_call call fits ruled) fits sends
    exact budgeted
  · intro before request rest split delay budget call whole ruling ruled available
    obtain ⟨within, fits⟩ := called (listed split) call
    exact turned_pending (turned_of_call call fits ruled) whole within available

end

/-! ### One host's turns -/

def turnAt (now : Int) (delay : Nat) (files : Files) : Request := ⟨.turn delay WAIT_BUDGET, now, .own, files⟩

def sends (record : Record) : List Request → List (Option Int)
  | [] => []
  | request :: requests =>
    ((request.ruling edge "publisher.example" record).bind fun ruling =>
      if ruling.sends then some (request.sendInstant ruling) else none) ::
        sends (step edge "publisher.example" record request) requests

example : sends .absent [turnAt 0 (seconds 2) .done, turnAt 500000000 (seconds 2) .done,
    ⟨.sent, 600000000, .own, .done⟩, turnAt 500000000 (seconds 2) .done] =
      [some 0, some 2000000000, none, some 4000000000] := by
  decide

theorem turns_spaced_day : Spaced edge "publisher.example" (.notTurn "expected value at line 1 column 1")
    [turnAt 0 (seconds 2) .done, turnAt 500600000 (seconds 5) .done, ⟨.sent, 700000000, .own, .done⟩] := by
  apply turns_spaced
  · decide
  · simp only [List.forall_mem_cons, List.not_mem_nil, false_implies, implies_true, and_true]
    have early {now : Int} (before : now ≤ seconds 1) : edge.Within now := by
      unfold Store.Within edge
      unfold seconds at *
      dsimp only
      omega
    refine ⟨⟨early (by decide), ?_⟩, ⟨early (by decide), ?_⟩, ⟨early (by decide), ?_⟩⟩
    · rintro delay budget call
      cases call
      exact Nat.le_refl _
    · rintro delay budget call
      cases call
      exact Nat.le_refl _
    · rintro delay budget call
      cases call

/-- A wait rounded up is sent after the turn the next is measured from; a delay's part of a millisecond is dropped;
at the end of the clock no delay is kept; a turn whose write was renamed and not flushed is not sent and recorded; and
a part of a millisecond is owed for a record that is no turn. -/
theorem turns_short :
    sends .absent [turnAt 0 (seconds 2) .done, turnAt 500600000 (seconds 2) .done, turnAt 501000000 (seconds 2) .done] =
      [some 0, some 2000600000, some 4000000000] ∧
    sends .absent [turnAt 0 1500000 .done, turnAt 0 1500000 .done] = [some 0, some 1000000] ∧
    sends .absent [turnAt 8210266876799000000000 (seconds 2) .done, turnAt 8210266876799000000000 (seconds 2) .done] =
      [some 8210266876799000000000, some 8210266876799000000000] ∧
    (sends .absent [turnAt 0 (seconds 2) (.write "flush directory" true)] = [none] ∧
      step edge "publisher.example" .absent (turnAt 0 (seconds 2) (.write "flush directory" true)) =
        .turn ⟨"publisher.example", 0⟩) ∧
    edge.pendingWait 1500000 0 (.notTurn "expected value") = 1500000 ∧
    sends (.notTurn "expected value") [turnAt 0 1500000 .done] = [some 1000000] := by
  decide

end CommonMeasure.CrawlDelay
