import CommonMeasure.CrawlDelay.Sends
import CommonMeasure.Foundation.Runs

/-!
# What one call sleeps

A call has a wait budget, and only its sleeps are charged to it.
-/

namespace CommonMeasure.CrawlDelay

/-! ### The wait budget -/

/-- What a call has left to sleep. `slept` is what it has slept so far, each sleep with what was left when it began. -/
structure WaitBudget where
  left : Nat
  slept : List (Nat × Nat)

def WaitBudget.new (total : Nat) : WaitBudget := ⟨total, []⟩

def WaitBudget.sleep (budget : WaitBudget) (wait : Nat) : WaitBudget :=
  if wait = 0 then budget else ⟨budget.left - wait, budget.slept ++ [(wait, budget.left)]⟩

def WaitBudget.total (budget : WaitBudget) : Nat := (budget.slept.map Prod.fst).sum

/-- From one budget to a later one: at most `most` was slept, and no sleep was longer than what was left. -/
def Spends (before after : WaitBudget) (most : Nat) : Prop :=
  ∃ naps, after.slept = before.slept ++ naps ∧ (naps.map Prod.fst).sum + after.left = before.left ∧
    (naps.map Prod.fst).sum ≤ most ∧ ∀ nap ∈ naps, nap.1 ≤ nap.2

theorem Spends.refl (budget : WaitBudget) (most : Nat) : Spends budget budget most :=
  ⟨[], by simp, by simp, by simp, nofun⟩

theorem Spends.trans {first second third : WaitBudget} {most more : Nat} (before : Spends first second most)
    (after : Spends second third more) : Spends first third (most + more) := by
  obtain ⟨naps, slept, left, bound, fits⟩ := before
  obtain ⟨later, sleptToo, leftToo, boundToo, fitsToo⟩ := after
  refine ⟨naps ++ later, by rw [sleptToo, slept, List.append_assoc], ?_, ?_, ?_⟩
  · rw [List.map_append, List.sum_append]
    omega
  · rw [List.map_append, List.sum_append]
    omega
  · intro nap listed
    exact (List.mem_append.mp listed).elim (fits nap) (fitsToo nap)

theorem Spends.mono {before after : WaitBudget} {most more : Nat} (spends : Spends before after most) (most_le : most ≤ more) :
    Spends before after more := by
  obtain ⟨naps, slept, left, bound, fits⟩ := spends
  exact ⟨naps, slept, left, by omega, fits⟩

theorem Spends.left {before after : WaitBudget} {most : Nat} (spends : Spends before after most) :
    after.left ≤ before.left ∧ before.left ≤ after.left + most := by
  obtain ⟨naps, _, left, bound, _⟩ := spends
  omega

theorem Spends.sharp {before after : WaitBudget} {most : Nat} (spends : Spends before after most) :
    Spends before after (before.left - after.left) := by
  obtain ⟨naps, slept, left, _, fits⟩ := spends
  exact ⟨naps, slept, left, by omega, fits⟩

theorem sleep_spends {budget : WaitBudget} {wait : Nat} (fits : wait ≤ budget.left) :
    Spends budget (budget.sleep wait) wait := by
  unfold WaitBudget.sleep
  split
  · exact Spends.refl budget wait
  · refine ⟨[(wait, budget.left)], rfl, ?_, by simp, by simpa using fits⟩
    simp only [List.map_cons, List.map_nil, List.sum_cons, List.sum_nil]
    omega

def Pace.callCeiling : Pace → Nat
  | .own => 240
  | .hosted => 50

def Pace.budgetNote : Pace → String
  | .own => ""
  | .hosted => ", which is what one call may spend asleep on a hosted edge: the session is served over HTTP, where the host " ++
      "ends a tool call well before a whole delay could be waited out"

def Pace.ceilingReason (pace : Pace) : String :=
  "this call reached its time limit: one `context_fetch` may take " ++ toString pace.callCeiling ++ "s on this edge" ++
    (match pace with
      | .own => ""
      | .hosted => ", which serves its sessions over HTTP") ++ ", and nothing further is sent once that is used"

def DelayRuling.sleep (ruling : DelayRuling) : Nat :=
  if ruling.outcome = .waited then fromMillis (ruling.waitMs.getD 0) else 0

def DelayRuling.withholdTimes (ruling : DelayRuling) : DelayRuling := { ruling with waitMs := none, nextAt := none }

/-- One call's pacing: what it may still sleep, the delay it has read for each host in milliseconds, the reservations it
holds, and what a probe keeps back. -/
structure Pacing where
  store : Store
  budget : WaitBudget
  delays : String → Option Nat
  pace : Pace
  reservations : String → Option String
  probeReserve : Nat

/-- What one turn of the back-off's loop finds: the record without the lock, the clock, what is left of the whole-call
ceiling, and, where it reserves, the name it draws and what it meets under the lock. -/
structure Look where
  kept : Kept
  now : Int
  ceilingLeft : Nat
  id : String
  lockedNow : Int
  sweep : Option Int
  files : Files
  current : Kept

/-- What a probe finds: what is left of the ceiling as it starts and as it sets the reserve, its looks at the back-off, the
clock after a wait, and the host's record. -/
structure Probing where
  started : Nat
  ceilingLeft : Nat
  looks : List Look
  later : Int
  files : Files
  record : Record

section

variable (hostOf : String → String)

namespace Pacing

def new (store : Store) (total : Nat) (pace : Pace) : Pacing :=
  ⟨store, WaitBudget.new total, fun _ => none, pace, fun _ => none, 0⟩

def learn (p : Pacing) (host : String) (honouredMs : Nat) : Pacing :=
  if host = "" then p
  else { p with delays := fun other => if other = host then some (max ((p.delays host).getD honouredMs) honouredMs) else p.delays other }

def delayMs (p : Pacing) (host : String) : Option Nat := (p.delays host).filter (0 < ·)

def endProbe (p : Pacing) : Pacing := { p with probeReserve := 0 }

def spendable (p : Pacing) (ceilingLeft : Nat) : Nat := min p.budget.left ceilingLeft

def backoffError (p : Pacing) (url : String) (fault : Fault) : Option String :=
  let host := if hostOf url = "" then url else hostOf url
  let kept := ". The back-off record for each host is kept on the edge that serves this session; its operator can "
  match fault with
  | .record reason =>
    if p.pace.namesTheEdge then
      some (reason ++ ". Repair access to or remove that host's back-off file, " ++ p.store.pathFor host "backoff.json" ++
        ", and try again.")
    else some (p.store.cause p.pace reason ++ kept ++ "make that store writable or clear it.")
  | .directory reason =>
    if p.pace.namesTheEdge then
      some (reason ++ ". Make the back-off directory, " ++ p.store.dir ++ ", writable, and try again.")
    else some (p.store.cause p.pace reason ++ kept ++ "make that store writable or clear it.")
  | .busy reason => some (p.store.cause p.pace reason ++ ". Try again once it has finished.")
  | .lockFile reason =>
    if p.pace.namesTheEdge then some (reason ++ "; " ++ LOCK_FILE_REMEDY ++ ", and try again.")
    else some (p.store.cause p.pace reason ++ kept ++ "repair that lock file.")
  | .overflow => none

def beforeHostSend (host url : String) (timeout : Option Nat) :
    Pacing → Nat → List Look → Option (Except String (Option String)) × Pacing
  | p, _, [] => (none, p)
  | p, allowance, look :: looks =>
    match look.kept.read host with
    | .error reason => ((p.backoffError hostOf url (.record reason)).map .error, p)
    | .ok none => (some (.ok none), p)
    | .ok (some backoff) =>
      match p.store.decision host p.pace backoff look.now timeout (min (p.spendable look.ceilingLeft) allowance) with
      | .sends => (some (.ok none), p)
      | .reserves read timeout_ =>
        match p.store.reserve host read look.id look.lockedNow (min timeout_ look.ceilingLeft) look.sweep look.files
            look.current with
        | (.error fault, _) => ((p.backoffError hostOf url fault).map .error, p)
        | (.ok .free, _) => (some (.ok none), p)
        | (.ok .changed, _) => beforeHostSend host url timeout p allowance looks
        | (.ok .reserved, _) =>
          (some (.ok (some look.id)), { p with reservations := fun other => if other = host then some look.id else p.reservations other })
      | .refused reason => (some (.error reason), p)
      | .sleeps sleep => beforeHostSend host url timeout { p with budget := p.budget.sleep sleep } (allowance - sleep) looks

def beforeSend (p : Pacing) (url : String) (timeout ceilingLeft : Nat) (looks : List Look) :
    Option (Except String (Option String)) × Pacing :=
  beforeHostSend hostOf (hostOf url) url (some timeout) p (p.spendable ceilingLeft - p.probeReserve) looks

def beforeTurn (p : Pacing) (host : String) (allowance : Nat) (looks : List Look) : Option (Except String Unit) × Pacing :=
  let (result, p) := beforeHostSend hostOf host host none p allowance looks
  (result.map (Except.map fun _ => ()), p)

def turnWithin (p : Pacing) (host : String) (delay budget : Nat) (now : Int) (files : Files) (record : Record) :
    DelayRuling × Pacing :=
  let ruling := (p.store.takeTurn host delay budget now p.pace files record).1
  let p := { p with budget := p.budget.sleep ruling.sleep }
  (if !p.pace.namesTheEdge && ruling.outcome = .refused then ruling.withholdTimes else ruling, p)

def turn (p : Pacing) (host : String) (delay : Nat) (now : Int) (ceilingLeft : Nat) (files : Files) (record : Record) :
    DelayRuling × Pacing :=
  p.turnWithin host delay (p.spendable ceilingLeft) now files record

def probeTurn (p : Pacing) (host : String) (now : Int) (budget : Nat) (probing : Probing) :
    Except String Int × Pacing :=
  match p.delayMs host with
  | none => (.ok now, p)
  | some delayMs =>
    let (ruling, p) := p.turnWithin host (fromMillis delayMs) budget now probing.files probing.record
    if ruling.sends then
      (.ok ((p.store.platform.checkedAdd now (fromMillis (asI64 (fromMillis (ruling.waitMs.getD 0))))).getD now), p)
    else
      (.error ("not sent: " ++ host ++ " states `Crawl-delay: " ++ secondsText ruling.delayMs ++
        "s`, which this edge keeps for a probe as for a page, and " ++
        match ruling.unavailable with
        | some reason => reason
        | none =>
          if budget = 0 then "the host is inside its delay, so the probe waits for a crossing that finds it clear"
          else "the wait is longer than the " ++ secondsText (millis budget) ++ "s this fetch may still spend waiting" ++
            p.pace.budgetNote), p)

def probeWithin (p : Pacing) (url : String) (now : Int) (budget : Nat) (probing : Probing) :
    Option (Except String Int) × Pacing :=
  if probing.started = 0 then (some (.error ("not sent: " ++ p.pace.ceilingReason)), p)
  else
    let before := p.budget.left
    match { p with probeReserve := p.spendable probing.ceilingLeft - budget }.beforeTurn hostOf (hostOf url) budget probing.looks with
    | (none, p) => (none, p)
    | (some (.error reason), p) => (some (.error reason), p)
    | (some (.ok ()), p) =>
      let waited := before - p.budget.left
      let (result, p) := p.probeTurn (hostOf url) (if waited = 0 then now else probing.later) (budget - waited) probing
      (some result, p)

def probe (p : Pacing) (url : String) (now : Int) (ceilingLeft : Nat) (probing : Probing) :
    Option (Except String Int) × Pacing :=
  p.probeWithin hostOf url now (p.spendable ceilingLeft) probing

def probeReserving (p : Pacing) (url : String) (now : Int) (reserve ceilingLeft : Nat) (probing : Probing) :
    Option (Except String Int) × Pacing :=
  let spendable := p.spendable ceilingLeft
  if spendable < reserve then
    (some (.error ("not sent: the requests still to come after it need " ++ secondsText (millis reserve) ++ "s of the " ++
      secondsText (millis spendable) ++ "s this fetch may still spend waiting" ++ p.pace.budgetNote)), p)
  else p.probeWithin hostOf url now (spendable - reserve) probing

def probeHop (p : Pacing) (url : String) (now : Int) (ceilingLeft : Nat) (probing : Probing) :
    Option (Except String Int) × Pacing :=
  p.probeWithin hostOf url now (p.spendable ceilingLeft - p.probeReserve) probing

def freeProbe (p : Pacing) (url : String) (now : Int) (probing : Probing) : Option (Except String Int) × Pacing :=
  p.probeWithin hostOf url now 0 probing

end Pacing

inductive Pacing.Call where
  | learn (host : String) (honouredMs : Nat)
  | turn (host : String) (delay : Nat) (now : Int) (ceilingLeft : Nat) (files : Files) (record : Record)
  | probe (url : String) (now : Int) (ceilingLeft : Nat) (probing : Probing)
  | probeReserving (url : String) (now : Int) (reserve ceilingLeft : Nat) (probing : Probing)
  | freeProbe (url : String) (now : Int) (probing : Probing)
  | probeHop (url : String) (now : Int) (ceilingLeft : Nat) (probing : Probing)
  | beforeTurn (host : String) (allowance : Nat) (looks : List Look)
  | beforeSend (url : String) (timeout ceilingLeft : Nat) (looks : List Look)
  | endProbe

def Pacing.step (p : Pacing) : Pacing.Call → Pacing
  | .learn host honouredMs => p.learn host honouredMs
  | .turn host delay now ceilingLeft files record => (p.turn host delay now ceilingLeft files record).2
  | .probe url now ceilingLeft probing => (p.probe hostOf url now ceilingLeft probing).2
  | .probeReserving url now reserve ceilingLeft probing => (p.probeReserving hostOf url now reserve ceilingLeft probing).2
  | .freeProbe url now probing => (p.freeProbe hostOf url now probing).2
  | .probeHop url now ceilingLeft probing => (p.probeHop hostOf url now ceilingLeft probing).2
  | .beforeTurn host allowance looks => (p.beforeTurn hostOf host allowance looks).2
  | .beforeSend url timeout ceilingLeft looks => (p.beforeSend hostOf url timeout ceilingLeft looks).2
  | .endProbe => p.endProbe

theorem decision_sleeps {store : Store} {host : String} {pace : Pace} {backoff : Backoff} {now : Int} {timeout : Option Nat}
    {budget sleep : Nat} (sleeps : store.decision host pace backoff now timeout budget = .sleeps sleep) : sleep ≤ budget := by
  unfold Store.decision at sleeps
  dsimp only at sleeps
  by_cases past : (backoff.until_ - now).toNat = 0
  · rw [if_pos past] at sleeps
    by_cases healthy : backoff.failures = 0
    · rw [if_pos healthy] at sleeps
      cases sleeps
    · rw [if_neg healthy] at sleeps
      cases timeout <;> cases sleeps
  · rw [if_neg past] at sleeps
    cases held : backoff.held.isSome with
    | true =>
      simp only [held, if_true] at sleeps
      split at sleeps
      · cases sleeps
      · have is := Decision.sleeps.inj sleeps
        omega
    | false =>
      simp only [held, Bool.false_eq_true, if_false] at sleeps
      split at sleeps
      · cases sleeps
      · have is := Decision.sleeps.inj sleeps
        omega

theorem turn_sleep {store : Store} {ruling ruled : DelayRuling} {delay budget : Nat} {now : Int} {pace : Pace} {files : Files}
    {record after : Record} (clear : ruling.outcome = .clear)
    (done : store.turn ruling delay budget now pace files record = (.ok (), ruled, after)) : ruled.sleep ≤ budget := by
  unfold Store.turn at done
  split at done
  · cases done
  · split at done
    iterate 4 cases done
    dsimp only at done
    split at done
    · simp only [Prod.mk.injEq] at done
      obtain ⟨_, rfl, _⟩ := done
      simp [DelayRuling.sleep, clear]
    · split at done
      · simp only [Prod.mk.injEq] at done
        obtain ⟨_, rfl, _⟩ := done
        simp [DelayRuling.sleep]
      · rename_i fits
        simp only [Prod.mk.injEq] at done
        obtain ⟨_, rfl, _⟩ := done
        simp only [DelayRuling.sleep, if_true, Option.getD_some]
        omega

theorem takeTurn_sleep (store : Store) (host : String) (delay budget : Nat) (now : Int) (pace : Pace) (files : Files)
    (record : Record) : (store.takeTurn host delay budget now pace files record).1.sleep ≤ budget := by
  unfold Store.takeTurn
  dsimp only
  split
  · rename_i done
    exact turn_sleep rfl done
  · simp [DelayRuling.sleep]

/-! ### What a call sleeps -/

namespace Pacing

variable {hostOf}

structure Paces (p after : Pacing) (most : Nat) : Prop where
  spends : Spends p.budget after.budget most
  probeReserve : after.probeReserve = p.probeReserve

theorem beforeHostSend_paces (host url : String) (timeout : Option Nat) (looks : List Look) (p : Pacing) (allowance : Nat) :
    Paces p (beforeHostSend hostOf host url timeout p allowance looks).2 allowance := by
  induction looks generalizing p allowance with
  | nil => exact ⟨Spends.refl _ _, rfl⟩
  | cons look looks ih =>
    rw [beforeHostSend]
    cases look.kept.read host with
    | error reason => exact ⟨Spends.refl _ _, rfl⟩
    | ok found =>
      cases found with
      | none => exact ⟨Spends.refl _ _, rfl⟩
      | some backoff =>
        dsimp only
        cases decided : p.store.decision host p.pace backoff look.now timeout (min (p.spendable look.ceilingLeft) allowance) with
        | sends => exact ⟨Spends.refl _ _, rfl⟩
        | refused reason => exact ⟨Spends.refl _ _, rfl⟩
        | reserves read timeout_ =>
          dsimp only
          split
          · exact ⟨Spends.refl _ _, rfl⟩
          · exact ⟨Spends.refl _ _, rfl⟩
          · exact ih p allowance
          · exact ⟨Spends.refl _ _, rfl⟩
        | sleeps sleep =>
          have fits := decision_sleeps decided
          have within : sleep ≤ p.budget.left := by
            unfold spendable at fits
            omega
          obtain ⟨spends, reserve⟩ := ih { p with budget := p.budget.sleep sleep } (allowance - sleep)
          exact ⟨((sleep_spends within).trans spends).mono (by omega), reserve⟩

theorem turnWithin_paces {p : Pacing} {host : String} {delay budget : Nat} {now : Int} {files : Files} {record : Record}
    (fits : budget ≤ p.budget.left) : Paces p (p.turnWithin host delay budget now files record).2 budget := by
  have sleep := takeTurn_sleep p.store host delay budget now p.pace files record
  exact ⟨(sleep_spends (by omega)).mono sleep, rfl⟩

theorem probeTurn_paces {p : Pacing} {host : String} {now : Int} {budget : Nat} {probing : Probing}
    (fits : budget ≤ p.budget.left) : Paces p (p.probeTurn host now budget probing).2 budget := by
  unfold probeTurn
  cases p.delayMs host with
  | none => exact ⟨Spends.refl _ _, rfl⟩
  | some delayMs =>
    dsimp only
    split
    · exact turnWithin_paces fits
    · exact turnWithin_paces fits

theorem beforeTurn_paces (p : Pacing) (host : String) (allowance : Nat) (looks : List Look) :
    Paces p (p.beforeTurn hostOf host allowance looks).2 allowance := beforeHostSend_paces host host none looks p allowance

theorem probeWithin_spends {p : Pacing} {url : String} {now : Int} {budget : Nat} {probing : Probing}
    (fits : budget ≤ p.budget.left) :
    Spends p.budget (p.probeWithin hostOf url now budget probing).2.budget budget ∧
      (p.probeWithin hostOf url now budget probing).2.probeReserve =
        if probing.started = 0 then p.probeReserve else p.spendable probing.ceilingLeft - budget := by
  unfold probeWithin
  by_cases past : probing.started = 0
  · rw [if_pos past, if_pos past]
    exact ⟨Spends.refl _ _, rfl⟩
  · rw [if_neg past, if_neg past]
    dsimp only
    have paces := @beforeTurn_paces hostOf { p with probeReserve := p.spendable probing.ceilingLeft - budget }
      (hostOf url) budget probing.looks
    cases before : { p with probeReserve := p.spendable probing.ceilingLeft - budget }.beforeTurn hostOf (hostOf url) budget
        probing.looks with
    | mk result r =>
      rw [before] at paces
      obtain ⟨spends, reserve⟩ := paces
      match result with
      | none => exact ⟨spends, reserve⟩
      | some (.error reason) => exact ⟨spends, reserve⟩
      | some (.ok ()) =>
        have left := spends.left
        dsimp only at spends left ⊢
        have turned := @probeTurn_paces r (hostOf url) (if p.budget.left - r.budget.left = 0 then now else probing.later)
          (budget - (p.budget.left - r.budget.left)) probing (by omega)
        exact ⟨(spends.sharp.trans turned.spends).mono (by omega), turned.probeReserve.trans reserve⟩

theorem step_spends (p : Pacing) (call : Call) : Spends p.budget (p.step hostOf call).budget p.budget.left := by
  have within {url : String} {now : Int} {budget : Nat} {probing : Probing} (fits : budget ≤ p.budget.left) :
      Spends p.budget (p.probeWithin hostOf url now budget probing).2.budget p.budget.left :=
    (probeWithin_spends fits).1.mono fits
  have spendable_le (ceilingLeft : Nat) : p.spendable ceilingLeft ≤ p.budget.left := Nat.min_le_left _ _
  have sends {after : Pacing} {most : Nat} (paces : Paces p after most) : Spends p.budget after.budget p.budget.left := by
    have left := paces.spends.left
    exact paces.spends.sharp.mono (by omega)
  cases call with
  | learn host honouredMs =>
    have same : (p.learn host honouredMs).budget = p.budget := by
      unfold learn
      split <;> rfl
    show Spends p.budget (p.learn host honouredMs).budget p.budget.left
    rw [same]
    exact Spends.refl _ _
  | turn host delay now ceilingLeft files record => exact sends (turnWithin_paces (spendable_le ceilingLeft))
  | probe url now ceilingLeft probing => exact within (spendable_le ceilingLeft)
  | probeReserving url now reserve ceilingLeft probing =>
    have fits := spendable_le ceilingLeft
    rw [step, probeReserving]
    split
    · exact Spends.refl _ _
    · exact within (by omega)
  | freeProbe url now probing => exact within (Nat.zero_le _)
  | probeHop url now ceilingLeft probing =>
    have fits := spendable_le ceilingLeft
    exact within (by omega)
  | beforeTurn host allowance looks => exact sends (beforeTurn_paces p host allowance looks)
  | beforeSend url timeout ceilingLeft looks => exact sends (beforeHostSend_paces _ _ _ looks p _)
  | endProbe => exact Spends.refl _ _

theorem run_spends (p : Pacing) (calls : List Call) :
    Spends p.budget (runWith (step hostOf) p calls).budget (p.budget.left - (runWith (step hostOf) p calls).budget.left) := by
  induction calls generalizing p with
  | nil => exact Spends.refl _ _
  | cons call calls ih => exact ((step_spends p call).trans (ih (p.step hostOf call))).sharp

/-- A call inside a probe: a redirect hop, at whose reserve the ceiling does not bind, a send, or a delay learnt. -/
def InProbe (p : Pacing) : Call → Prop
  | .probeHop _ _ _ probing => p.budget.left ≤ probing.ceilingLeft
  | .beforeSend .. | .learn .. => True
  | _ => False

def Reserves (reserve : Nat) (p : Pacing) : Prop := reserve ≤ p.probeReserve ∧ p.probeReserve ≤ p.budget.left

theorem probeReserving_reserves {p : Pacing} {url : String} {now sent : Int} {reserve ceilingLeft : Nat} {probing : Probing}
    (unbound : p.budget.left ≤ probing.ceilingLeft)
    (sends : (p.probeReserving hostOf url now reserve ceilingLeft probing).1 = some (.ok sent)) :
    Reserves reserve (p.probeReserving hostOf url now reserve ceilingLeft probing).2 := by
  have fits : p.spendable ceilingLeft ≤ p.budget.left := Nat.min_le_left _ _
  have whole : p.spendable probing.ceilingLeft = p.budget.left := Nat.min_eq_left unbound
  unfold probeReserving at sends ⊢
  dsimp only at sends ⊢
  by_cases short : p.spendable ceilingLeft < reserve
  · rw [if_pos short] at sends
    cases sends
  · rw [if_neg short] at sends ⊢
    have started : probing.started ≠ 0 := by
      intro past
      rw [probeWithin, if_pos past] at sends
      cases sends
    have kept := @probeWithin_spends hostOf p url now (p.spendable ceilingLeft - reserve) probing (by omega)
    rw [if_neg started, whole] at kept
    have left := kept.1.left
    unfold Reserves
    omega

theorem inProbe_reserves (reserve : Nat) (p : Pacing) (call : Call) (reserves : Reserves reserve p) (inside : p.InProbe call) :
    Reserves reserve (p.step hostOf call) := by
  obtain ⟨least, held⟩ := reserves
  cases call with
  | learn host honouredMs =>
    show Reserves reserve (p.learn host honouredMs)
    unfold learn
    split <;> exact ⟨least, held⟩
  | probeHop url now ceilingLeft probing =>
    have fits : p.spendable ceilingLeft ≤ p.budget.left := Nat.min_le_left _ _
    have whole : p.spendable probing.ceilingLeft = p.budget.left := Nat.min_eq_left inside
    have kept := @probeWithin_spends hostOf p url now (p.spendable ceilingLeft - p.probeReserve) probing (by omega)
    have left := kept.1.left
    show Reserves reserve (p.probeWithin hostOf url now (p.spendable ceilingLeft - p.probeReserve) probing).2
    rw [whole] at kept
    unfold Reserves
    by_cases past : probing.started = 0
    · rw [if_pos past] at kept
      omega
    · rw [if_neg past] at kept
      omega
  | beforeSend url timeout ceilingLeft looks =>
    have fits : p.spendable ceilingLeft ≤ p.budget.left := Nat.min_le_left _ _
    have paces := @beforeHostSend_paces hostOf (hostOf url) url (some timeout) looks p (p.spendable ceilingLeft - p.probeReserve)
    have left := paces.spends.left
    have same := paces.probeReserve
    show Reserves reserve (beforeHostSend hostOf (hostOf url) url (some timeout) p (p.spendable ceilingLeft - p.probeReserve) looks).2
    unfold Reserves
    omega
  | turn => cases inside
  | probe => cases inside
  | probeReserving => cases inside
  | freeProbe => cases inside
  | beforeTurn => cases inside
  | endProbe => cases inside

variable (hostOf)

/-- Whatever the calls and whatever they find, what they sleep and what is left are the budget the pacing was made with, and
no sleep was longer than what was left. A probe that is sent keeps its reserve whole until it ends. -/
theorem pacing_within_budget :
    (∀ store total pace calls, ∃ after, after = (runWith (step hostOf) (Pacing.new store total pace) calls).budget ∧
      after.total + after.left = total ∧ ∀ nap ∈ after.slept, nap.1 ≤ nap.2) ∧
    ∀ (p : Pacing) url now reserve ceilingLeft (probing : Probing) sent, p.budget.left ≤ probing.ceilingLeft →
      (p.probeReserving hostOf url now reserve ceilingLeft probing).1 = some (.ok sent) →
      ∀ calls, AlongRun (step hostOf) InProbe (p.probeReserving hostOf url now reserve ceilingLeft probing).2 calls →
        reserve ≤ (runWith (step hostOf) (p.probeReserving hostOf url now reserve ceilingLeft probing).2 calls).budget.left := by
  constructor
  · intro store total pace calls
    obtain ⟨naps, slept, left, _, fits⟩ := @run_spends hostOf (Pacing.new store total pace) calls
    have all : (runWith (step hostOf) (Pacing.new store total pace) calls).budget.slept = naps := slept
    refine ⟨_, rfl, ?_, by rwa [all]⟩
    rw [WaitBudget.total, all]
    exact left
  · intro p url now reserve ceilingLeft probing sent unbound sends calls along
    have reserves := runWith_keeps (inProbe_reserves reserve) (probeReserving_reserves unbound sends) along
    exact Nat.le_trans reserves.1 reserves.2

end Pacing

end

def waitsFor (pause : Nat) : Probing where
  started := seconds 200
  ceilingLeft := seconds 200
  looks :=
    [⟨.backoff ⟨1, 503, seconds pause, true, false, none, none⟩, 0, seconds 200, "", 0, none, .done, .absent⟩,
      ⟨.absent, seconds pause, seconds 200, "", 0, none, .done, .absent⟩]
  later := seconds pause
  files := .done
  record := .absent

theorem pacing_within_budget_probed :
    seconds 4 ≤ (runWith (Pacing.step fun url => url)
      ((Pacing.new edge (seconds 10) .own).probeReserving (fun url => url) "licences.example" 0 (seconds 4) (seconds 200)
        (waitsFor 3)).2
      [.probeHop "mirror.example" 0 (seconds 200) (waitsFor 2),
        .beforeSend "mirror.example" (seconds 5) (seconds 200) (waitsFor 2).looks]).budget.left :=
  (Pacing.pacing_within_budget fun url => url).2 _ _ _ _ _ _ _ (by decide) rfl _ ⟨by unfold Pacing.InProbe; decide,
    trivial, trivial⟩

end CommonMeasure.CrawlDelay
