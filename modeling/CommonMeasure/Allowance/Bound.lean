import CommonMeasure.Allowance.Holding
import CommonMeasure.Allowance.Reading
import CommonMeasure.Foundation.Runs

/-!
# No period is overspent

A run is operations one after another, as the ledger's lock puts them.
-/

namespace CommonMeasure.Allowance

section

variable {Uuid Time : Type} {platform : Platform Uuid Time} [DecidableEq Uuid]

inductive Operation (platform : Platform Uuid Time) where
  | reserve (amount : Money platform) (context : String) (allowBreach : Bool)
  | reconcile (reservation : Reservation platform) (receiptMoney : Option (Money platform)) (context receiptNote : String)
  | release (reservation : Reservation platform) (reason : String)
  | commitObserved (amount : Money platform) (context note : String)
  | state

structure Event (platform : Platform Uuid Time) where
  operation : Operation platform
  now : Time
  draws : Draws Uuid

def Event.perform (account : Account platform) (event : Event platform) : LedgerM Unit :=
  match event.operation with
  | .reserve amount context allowBreach => do
    let _ ← reserve account amount event.now context allowBreach event.draws
  | .reconcile reservation receiptMoney context receiptNote => do
    let _ ← reconcile account reservation receiptMoney event.now context receiptNote event.draws
  | .release reservation reason => release reservation event.now reason event.draws
  | .commitObserved amount context note => commitObserved account amount event.now context note event.draws
  | .state => do
    let _ ← Allowance.state account event.now event.draws

structure Home (Time : Type) where
  file : Bytes
  clock : Time

def step (account : Account platform) (home : Home Time) (event : Event platform) : Home Time :=
  ⟨((event.perform account).on home.file).2, event.now⟩

def run (account : Account platform) (home : Home Time) (events : List (Event platform)) : Home Time :=
  runWith (step account) home events

def Attempt.Whole : Attempt → Prop
  | .part _ => False
  | _ => True

structure Held (account : Account platform) (entries : List (LedgerEntry platform)) (now : Time)
    (reservation : Reservation platform) : Prop where
  unresolved : reservation.id ∉ resolvedIds entries
  unexpired : ∀ entry, .reserved entry ∈ entries → entry.id = reservation.id → platform.stamp now < entry.expiresAt
  made : ∃ entry, .reserved entry ∈ entries ∧ entry.id = reservation.id ∧ entry.amount = reservation.amount ∧
    periodKeys account.declarations now = .ok entry.periodKeys

/-- The receipt is in the reservation's currency and not above its amount, and its line is not written twice. -/
def Settles (account : Account platform) (home : Home Time) (event : Event platform) (reservation : Reservation platform)
    (money : Money platform) : Prop :=
  (∃ entries, read platform home.file = .ok entries ∧ Held account entries event.now reservation) ∧
    money.currency = reservation.amount.currency ∧ money.micros ≤ reservation.amount.micros ∧
    event.draws.first ≠ .unsynced

structure Allowed (account : Account platform) (home : Home Time) (event : Event platform) : Prop where
  clock : platform.stamp home.clock ≤ platform.stamp event.now
  sweep : ∀ n, (event.draws.sweep n).2.Whole
  first : event.draws.first.Whole
  second : event.draws.second.Whole
  operation : match event.operation with
    | .reserve _ _ allowBreach => allowBreach = false
    | .reconcile reservation receiptMoney _ _ => ∀ money ∈ receiptMoney, Settles account home event reservation money
    | .commitObserved _ _ _ => False
    | .release _ _ | .state => True

/-! ### What a check that passes says -/

theorem bind_eq_ok {α β : Type} {result : Except Fault α} {next : α → Except Fault β} {b : β} :
    (result >>= next) = .ok b ↔ ∃ a, result = .ok a ∧ next a = .ok b := by
  cases result with
  | error fault => simp [bind, Except.bind]
  | ok a => simp [bind, Except.bind]

theorem mapM_mem {α β : Type} {f : α → Except Fault β} {xs : List α} {ys : List β} (done : xs.mapM f = .ok ys) :
    ∀ x ∈ xs, ∃ y ∈ ys, f x = .ok y := by
  induction xs generalizing ys with
  | nil => simp
  | cons x xs ih =>
    rw [List.mapM_cons] at done
    obtain ⟨y, first, done⟩ := bind_eq_ok.mp done
    obtain ⟨more, rest, done⟩ := bind_eq_ok.mp done
    obtain rfl := Except.ok.inj done
    intro other member
    rcases List.mem_cons.mp member with rfl | later
    · exact ⟨y, List.mem_cons_self, first⟩
    · obtain ⟨out, inside, result⟩ := ih rest other later
      exact ⟨out, List.mem_cons_of_mem _ inside, result⟩

section

variable {account : Account platform} {now : Time}

theorem fits_of_checks {entries : List (LedgerEntry platform)} {amount : Money platform}
    {checks : List (PeriodCheck platform)} (checked : checksFor entries account (some amount) now = .ok checks)
    (fits : checks.all (fun check => check.comparable && !check.wouldExceed) = true) : Fits account entries now amount := by
  intro declared listed
  obtain ⟨check, inside, result⟩ := mapM_mem checked declared listed
  obtain ⟨key, found, made⟩ := bind_eq_ok.mp result
  obtain rfl := Except.ok.inj made
  refine ⟨key, found, ?_⟩
  have fit := List.all_eq_true.mp fits _ inside
  simp only [Option.any_some, Bool.and_eq_true, Bool.not_eq_true', decide_eq_true_eq, decide_eq_false_iff_not,
    not_and, UInt64.not_lt] at fit
  have within := UInt64.le_iff_toNat_le.mp (fit.2 fit.1)
  have held := held_toNat entries account.principal declared key now
  unfold spent at held
  rw [toNat_saturatingAdd, held] at within
  unfold maxMicros at within ⊢
  omega

theorem get_insert_self (keys : PeriodKeys) (period : AllowancePeriod) (key : String) :
    (keys.insert period key).get period = some key := by
  cases period <;> rfl

theorem get_insert_ne (keys : PeriodKeys) {period other : AllowancePeriod} (different : other ≠ period) (key : String) :
    (keys.insert period key).get other = keys.get other := by
  cases period <;> cases other <;> first | rfl | exact absurd rfl different

omit [DecidableEq Uuid] in
theorem keysAt_insert {declarations : List (AllowanceDeclaration platform)} {start keys : PeriodKeys}
    (distinct : (declarations.map AllowanceDeclaration.period).Nodup)
    (found : declarations.foldlM (fun keys declared => (declared.periodKey now).map (keys.insert declared.period)) start =
      .ok keys) :
    (∀ period, period ∉ declarations.map AllowanceDeclaration.period → keys.get period = start.get period) ∧
      ∀ declared ∈ declarations, ∃ key, declared.periodKey now = .ok key ∧ keys.get declared.period = some key := by
  induction declarations generalizing start with
  | nil =>
    obtain rfl := Except.ok.inj found
    simp
  | cons declared declarations ih =>
    rw [List.foldlM_cons] at found
    obtain ⟨next, first, found⟩ := bind_eq_ok.mp found
    obtain ⟨unlisted, distinct⟩ := List.nodup_cons.mp distinct
    obtain ⟨others, each⟩ := ih distinct found
    cases key : declared.periodKey now with
    | error fault =>
      rw [key] at first
      cases first
    | ok own =>
      rw [key] at first
      obtain rfl := Except.ok.inj first
      constructor
      · intro period absent
        obtain ⟨different, later⟩ := not_or.mp fun member => absent (List.mem_cons.mpr member)
        rw [others period later, get_insert_ne start different]
      · intro other member
        rcases List.mem_cons.mp member with rfl | later
        · exact ⟨own, key, by rw [others _ unlisted, get_insert_self]⟩
        · exact each other later

omit [DecidableEq Uuid] in
theorem keysAt_of_periodKeys {keys : PeriodKeys} (distinct : (account.declarations.map AllowanceDeclaration.period).Nodup)
    (found : periodKeys account.declarations now = .ok keys) : KeysAt account now keys :=
  (keysAt_insert distinct found).2

end

/-- The ledger is ready for a line and reads, every reservation is the account's, and no period is overspent. -/
structure Sound (account : Account platform) (now : Time) (file : Bytes) (entries : List (LedgerEntry platform)) : Prop where
  ready : Ready file
  reads : read platform file = .ok entries
  principal : ∀ entry, .reserved entry ∈ entries → entry.principal = account.principal
  bound : Bound account entries now

omit [DecidableEq Uuid] in
theorem written_whole {attempt : Attempt} (whole : attempt.Whole) (entry : LedgerEntry platform) :
    ∃ copies ≤ 1, attempt.written entry.line = entryLines (List.replicate copies entry) := by
  cases attempt with
  | part length => exact whole.elim
  | nothing => exact ⟨0, Nat.zero_le _, rfl⟩
  | _ => exact ⟨1, Nat.le_refl _, by simp [Attempt.written, entryLines]⟩

section

variable {account : Account platform} {now : Time} {file : Bytes} {entries : List (LedgerEntry platform)}

theorem Sound.append (sound : Sound account now file entries) {more : List (LedgerEntry platform)}
    (principal : ∀ entry, .reserved entry ∈ more → entry.principal = account.principal)
    (bound : Bound account (entries ++ more) now) : Sound account now (file ++ entryLines more) (entries ++ more) := by
  obtain ⟨ready, reads⟩ := sound.ready.read_entryLines sound.reads more
  refine ⟨ready, reads, ?_, bound⟩
  intro entry member
  rcases List.mem_append.mp member with earlier | now
  · exact sound.principal entry earlier
  · exact principal entry now

omit [DecidableEq Uuid] in
theorem releaseEach_grows (now : Time) {sweep : Nat → Uuid × Attempt} (whole : ∀ n, (sweep n).2.Whole) (drawn : Nat)
    (reservations : List (Reserved platform)) (accumulated : List (LedgerEntry platform)) (file : Bytes) :
    ∃ releases, ((releaseEach now sweep drawn reservations accumulated).on file).2 = file ++ entryLines releases ∧
      (∀ entry ∈ releases, ∃ released reservation, entry = .released released ∧ reservation ∈ reservations ∧
        released.reservedId = reservation.id) ∧
      ∀ swept, ((releaseEach now sweep drawn reservations accumulated).on file).1 = .ok swept →
        swept = accumulated ++ releases := by
  induction reservations generalizing drawn accumulated file with
  | nil =>
    refine ⟨[], (List.append_nil file).symm, by simp, ?_⟩
    intro swept done
    obtain rfl := Except.ok.inj done
    simp
  | cons reservation reservations ih =>
    rw [releaseEach, bind_on, append_on]
    by_cases finished : (sweep drawn).2 = .done
    · rw [if_pos finished, finished]
      obtain ⟨releases, grown, each, returned⟩ := ih (drawn + 1)
        (accumulated ++ [expiryRelease (sweep drawn).1 now reservation])
        (file ++ ((expiryRelease (sweep drawn).1 now reservation).line ++ [newline]))
      refine ⟨expiryRelease (sweep drawn).1 now reservation :: releases, ?_, ?_, ?_⟩
      · rw [Attempt.written, grown]
        simp [entryLines]
      · intro entry member
        rcases List.mem_cons.mp member with rfl | later
        · exact ⟨_, reservation, rfl, List.mem_cons_self, rfl⟩
        · obtain ⟨released, other, same, listed, id⟩ := each entry later
          exact ⟨released, other, same, List.mem_cons_of_mem _ listed, id⟩
      · intro swept done
        rw [returned swept done]
        simp
    · rw [if_neg finished]
      obtain ⟨copies, _, written⟩ := written_whole (whole drawn) (expiryRelease (sweep drawn).1 now reservation)
      refine ⟨_, congrArg (file ++ ·) written, ?_, ?_⟩
      · intro entry member
        obtain rfl := (List.mem_replicate.mp member).2
        exact ⟨_, reservation, rfl, List.mem_cons_self, rfl⟩
      · intro swept done
        cases done

theorem Sound.sweep (sound : Sound account now file entries) {sweep : Nat → Uuid × Attempt}
    (whole : ∀ n, (sweep n).2.Whole) {result : Except Fault (List (LedgerEntry platform))} {after : Bytes}
    (done : (sweepExpired platform now sweep).on file = (result, after)) :
    ∃ releases, Sound account now after (entries ++ releases) ∧ (∀ entry ∈ releases, ExpiryRelease entries now entry) ∧
      ∀ swept, result = .ok swept → swept = entries ++ releases := by
  have got : (sweepExpired platform now sweep).on file =
      (releaseEach now sweep 0 (expired entries now) entries).on file := by
    unfold sweepExpired
    rw [bind_on]
    show LedgerM.on (liftM (read platform file) >>= fun entries =>
      releaseEach now sweep 0 (expired entries now) entries) file = _
    rw [sound.reads]
    rfl
  obtain ⟨releases, grown, each, returned⟩ := releaseEach_grows now whole 0 (expired entries now) entries file
  rw [← got, done] at grown returned
  have onlyReleases : ∀ entry ∈ releases, ∃ released, entry = .released released := by
    intro entry member
    obtain ⟨released, _, same, _⟩ := each entry member
    exact ⟨released, same⟩
  refine ⟨releases, ?_, each, returned⟩
  obtain rfl : after = file ++ entryLines releases := grown
  apply sound.append
  · intro entry member
    obtain ⟨released, same⟩ := onlyReleases _ member
    cases same
  · exact sound.bound.release onlyReleases

theorem Sound.appendWhole (sound : Sound account now file entries) {entry : LedgerEntry platform} {attempt : Attempt}
    (whole : attempt.Whole) (principal : ∀ reserved, entry = .reserved reserved → reserved.principal = account.principal)
    (bound : Bound account (entries ++ [entry]) now) :
    ∃ more, Sound account now ((Allowance.append entry attempt).on file).2 more := by
  obtain ⟨copies, atMost, written⟩ := written_whole whole entry
  rw [append_on, written]
  rcases Nat.le_one_iff_eq_zero_or_eq_one.mp atMost with rfl | rfl
  · exact ⟨_, sound.append (by simp) (by simpa using sound.bound)⟩
  · refine ⟨_, sound.append ?_ bound⟩
    intro reserved member
    exact principal reserved (List.mem_singleton.mp member).symm

theorem Sound.reserve (sound : Sound account now file entries)
    (distinct : (account.declarations.map AllowanceDeclaration.period).Nodup) {draws : Draws Uuid}
    (sweep : ∀ n, (draws.sweep n).2.Whole) (first : draws.first.Whole) (amount : Money platform) (context : String) :
    ∃ more, Sound account now ((Allowance.reserve account amount now context false draws).on file).2 more := by
  unfold Allowance.reserve
  split
  · exact ⟨entries, sound⟩
  · apply bind_after (P := fun after => ∃ more, Sound account now after more)
    · intro fault between done
      obtain ⟨releases, swept, _⟩ := sound.sweep sweep done
      exact ⟨_, swept⟩
    · intro swept between done
      obtain ⟨releases, now, _, returned⟩ := sound.sweep sweep done
      obtain rfl := returned swept rfl
      apply lift_after (P := fun after => ∃ more, Sound account _ after more) ⟨_, now⟩
      intro checks checked
      dsimp only
      split
      · exact ⟨_, now⟩
      · rename_i passes
        apply lift_after (P := fun after => ∃ more, Sound account _ after more) ⟨_, now⟩
        intro keys found
        rw [pure_after]
        apply now.appendWhole first
        · intro reserved same
          obtain rfl := LedgerEntry.reserved.inj same
          rfl
        · apply now.bound.hold
          · exact fits_of_checks checked (by simpa using passes)
          · exact keysAt_of_periodKeys distinct found

omit [DecidableEq Uuid] in
theorem settlement_grows {entry : LedgerEntry platform} {first second : Attempt} (firstWhole : first.Whole)
    (secondWhole : second.Whole) :
    ∃ copies, ((appendSettlement entry first second).on file).2 = file ++ entryLines (List.replicate copies entry) ∧
      (first ≠ .unsynced → copies ≤ 1) := by
  obtain ⟨copies, atMost, again⟩ := written_whole secondWhole entry
  cases first with
  | done => exact ⟨1, congrArg (file ++ ·) (by simp [Attempt.written, entryLines]), fun _ => Nat.le_refl _⟩
  | nothing =>
    have tried : ((appendSettlement entry .nothing second).on file).2 = file ++ [] ++ second.written entry.line := by
      cases second <;> rfl
    exact ⟨copies, by rw [tried, again, List.append_nil], fun _ => atMost⟩
  | part length => exact firstWhole.elim
  | unsynced =>
    have tried : ((appendSettlement entry .unsynced second).on file).2 =
        file ++ (entry.line ++ [newline]) ++ second.written entry.line := by
      cases second <;> rfl
    refine ⟨copies + 1, ?_, fun notTwice => absurd rfl notTwice⟩
    rw [tried, again]
    simp [List.replicate_succ, entryLines]

theorem Sound.settle (sound : Sound account now file entries) {entry : LedgerEntry platform} {first second : Attempt}
    (firstWhole : first.Whole) (secondWhole : second.Whole) (settles : ∀ reserved, entry ≠ .reserved reserved)
    (bound : ∀ copies, (first ≠ .unsynced → copies ≤ 1) → Bound account (entries ++ List.replicate copies entry) now) :
    ∃ more, Sound account now ((appendSettlement entry first second).on file).2 more := by
  obtain ⟨copies, grown, atMost⟩ := settlement_grows firstWhole secondWhole
  rw [grown]
  refine ⟨_, sound.append ?_ (bound copies atMost)⟩
  intro reserved member
  exact absurd (List.mem_replicate.mp member).2.symm (settles reserved)

theorem mem_expired {reservation : Reserved platform} (member : reservation ∈ expired entries now) :
    .reserved reservation ∈ entries ∧ reservation.expiresAt ≤ platform.stamp now := by
  obtain ⟨entry, listed, kept⟩ := List.mem_filterMap.mp member
  cases entry with
  | reserved entry =>
    dsimp only at kept
    split at kept
    · rename_i gone
      obtain rfl := Option.some.inj kept
      exact ⟨listed, gone.2⟩
    · cases kept
  | _ => cases kept

theorem Held.live {reservation : Reservation platform} (held : Held account entries now reservation)
    {releases : List (LedgerEntry platform)} (each : ∀ entry ∈ releases, ExpiryRelease entries now entry)
    {entry : Reserved platform} (member : .reserved entry ∈ entries) (id : entry.id = reservation.id) :
    Allowance.live (resolvedIds (entries ++ releases)) now entry = true := by
  have current := held.unexpired entry member id
  simp only [Allowance.live, decide_eq_true_eq, resolvedIds_append, List.mem_append, not_or, id]
  refine ⟨⟨held.unresolved, ?_⟩, current⟩
  intro resolved
  obtain ⟨release, listed, same⟩ := List.mem_filterMap.mp resolved
  obtain ⟨released, gone, rfl, expired, ends⟩ := each release listed
  obtain ⟨goneListed, passed⟩ := mem_expired expired
  have goneId : gone.id = reservation.id := ends.symm.trans (Option.some.inj same)
  exact absurd (held.unexpired gone goneListed goneId) (not_lt.mpr passed)

theorem Sound.reconcile (sound : Sound account now file entries) {draws : Draws Uuid}
    (sweep : ∀ n, (draws.sweep n).2.Whole) (first : draws.first.Whole) (second : draws.second.Whole)
    {reservation : Reservation platform} {receiptMoney : Option (Money platform)}
    (settles : ∀ money ∈ receiptMoney, Held account entries now reservation ∧
      money.currency = reservation.amount.currency ∧ money.micros ≤ reservation.amount.micros ∧ draws.first ≠ .unsynced)
    (context receiptNote : String) :
    ∃ more, Sound account now
      ((Allowance.reconcile account reservation receiptMoney now context receiptNote draws).on file).2 more := by
  unfold Allowance.reconcile
  apply bind_after (P := fun after => ∃ more, Sound account now after more)
  · intro fault between done
    obtain ⟨releases, swept, _⟩ := sound.sweep sweep done
    exact ⟨_, swept⟩
  · intro swept between done
    obtain ⟨releases, soundNow, each, _⟩ := sound.sweep sweep done
    cases receiptMoney with
    | none =>
      rw [pure_after]
      apply soundNow.settle first second (by simp)
      intro copies _
      apply soundNow.bound.release
      intro entry member
      exact ⟨_, (List.mem_replicate.mp member).2⟩
    | some money =>
      obtain ⟨held, currency, within, once⟩ := settles money rfl
      apply lift_after (P := fun after => ∃ more, Sound account now after more) ⟨_, soundNow⟩
      intro keys found
      rw [pure_after]
      obtain ⟨entry, member, id, amount, made⟩ := held.made
      obtain rfl := Except.ok.inj (made.symm.trans found)
      have still := held.live each member id
      apply soundNow.settle first second (by simp)
      intro copies atMost
      rcases Nat.le_one_iff_eq_zero_or_eq_one.mp (atMost once) with rfl | rfl
      · simpa using soundNow.bound
      · apply soundNow.bound.commit (List.mem_append_left _ member) still
        · exact congrArg some id.symm
        · exact sound.principal entry member
        · rfl
        · rw [amount]
          exact currency
        · rw [amount]
          exact within

/-! ### Runs -/

theorem Sound.later {then_ : Time} (sound : Sound account now file entries)
    (passed : platform.stamp now ≤ platform.stamp then_) : Sound account then_ file entries :=
  ⟨sound.ready, sound.reads, sound.principal, sound.bound.later passed⟩

theorem step_sound (distinct : (account.declarations.map AllowanceDeclaration.period).Nodup) {home : Home Time}
    (sound : ∃ entries, Sound account home.clock home.file entries) {event : Event platform}
    (allowed : Allowed account home event) :
    ∃ entries, Sound account (step account home event).clock (step account home event).file entries := by
  obtain ⟨entries, sound⟩ := sound
  have sound := sound.later allowed.clock
  have operation := allowed.operation
  unfold step Event.perform
  dsimp only
  split
  · rename_i amount context allowBreach performed
    rw [performed] at operation
    obtain rfl : allowBreach = false := operation
    rw [pure_after]
    exact sound.reserve distinct allowed.sweep allowed.first amount context
  · rename_i reservation receiptMoney context receiptNote performed
    rw [performed] at operation
    rw [pure_after]
    apply sound.reconcile allowed.sweep allowed.first allowed.second
    intro money received
    obtain ⟨⟨found, reads, held⟩, rest⟩ := operation money received
    obtain rfl := Except.ok.inj (reads.symm.trans sound.reads)
    exact ⟨held, rest⟩
  · rename_i reservation reason performed
    apply sound.appendWhole allowed.first (by simp)
    apply sound.bound.release
    simp
  · rename_i amount context note performed
    rw [performed] at operation
    exact operation.elim
  · rw [pure_after]
    unfold Allowance.state
    apply bind_after (P := fun after => ∃ more, Sound account event.now after more)
    · intro fault between done
      obtain ⟨releases, swept, _⟩ := sound.sweep allowed.sweep done
      exact ⟨_, swept⟩
    · intro swept between done
      obtain ⟨releases, now, _⟩ := sound.sweep allowed.sweep done
      rw [lift_file]
      exact ⟨_, now⟩

theorem sound_empty (start : Time) : Sound account start [] [] where
  ready := by decide +kernel
  reads := rfl
  principal _ member := by cases member
  bound _ _ _ := Nat.zero_le _

/-- From an empty ledger no declaration's period ever holds more than is declared, in any run whose operations are allowed. -/
theorem never_overspent (distinct : (account.declarations.map AllowanceDeclaration.period).Nodup) (start : Time)
    (events : List (Event platform)) (allowed : AlongRun (step account) (Allowed account) ⟨[], start⟩ events) :
    ∃ entries, read platform (run account ⟨[], start⟩ events).file = .ok entries ∧
      ∀ now, platform.stamp (run account ⟨[], start⟩ events).clock ≤ platform.stamp now →
        ∀ declared ∈ account.declarations, ∀ key, declared.periodKey now = .ok key →
          saturatingAdd (spent entries account.principal declared key now).1
            (spent entries account.principal declared key now).2 ≤ declared.amount.micros := by
  obtain ⟨entries, sound⟩ := runWith_keeps (I := fun home => ∃ entries, Sound account home.clock home.file entries)
    (fun _ _ sound allowed => step_sound distinct sound allowed) ⟨[], sound_empty start⟩ allowed
  refine ⟨entries, sound.reads, ?_⟩
  intro now passed declared listed key _
  rw [UInt64.le_iff_toNat_le, held_toNat]
  exact sound.bound.later passed declared listed key

end

end

def reserveAt (now : Nat) (id : Fin 16) (micros : UInt64) : Event utc :=
  ⟨.reserve (usd micros) "test" false, now, drawn id .done⟩

def reconcileAt (now : Nat) (id : Fin 16) (micros : UInt64) (first : Attempt) : Event utc :=
  ⟨.reconcile ⟨digit id, usd micros⟩ (some (usd micros)) "test" "observed", now, drawn 15 first⟩

def dayRun (events : List (Event utc)) : Home Nat := run (daily 20000) ⟨[], nine⟩ events

def held : Reserved utc where
  id := digit 1
  principal := "os-user:1000"
  amount := usd 7000
  periodKeys := ⟨some "2026-08-22", none⟩
  at_ := "2026-08-22T09:00:00Z"
  expiresAt := "2026-08-22T09:10:00Z"
  pid := 1
  context := "test"

theorem reserveAt_file : (dayRun [reserveAt nine 1 7000]).file = (LedgerEntry.reserved held).line ++ [newline] := by
  decide +kernel

theorem never_overspent_settled :
    ∃ entries, read utc (dayRun [reserveAt nine 1 7000, reconcileAt nine 1 7000 .done]).file = .ok entries ∧
      ∀ now, stampUtc nine ≤ stampUtc now → ∀ declared ∈ (daily 20000).declarations, ∀ key,
        declared.periodKey now = .ok key →
          saturatingAdd (spent entries (daily 20000).principal declared key now).1
            (spent entries (daily 20000).principal declared key now).2 ≤ declared.amount.micros := by
  have reads : read utc (dayRun [reserveAt nine 1 7000]).file = .ok [.reserved held] := by
    rw [reserveAt_file]
    have ready : Ready [] := by decide +kernel
    exact ready.read_append rfl (.reserved held)
  have unresolved : Held (daily 20000) [.reserved held] nine ⟨digit 1, usd 7000⟩ := by
    refine ⟨by decide, ?_, held, List.mem_singleton_self _, rfl, rfl, by decide⟩
    intro entry member _
    obtain rfl := LedgerEntry.reserved.inj (List.mem_singleton.mp member)
    decide
  have second : Settles (daily 20000) (dayRun [reserveAt nine 1 7000]) (reconcileAt nine 1 7000 .done) ⟨digit 1, usd 7000⟩
      (usd 7000) := ⟨⟨_, reads, unresolved⟩, rfl, by decide, by decide⟩
  apply never_overspent (by decide) nine [reserveAt nine 1 7000, reconcileAt nine 1 7000 .done]
  refine ⟨⟨le_rfl, fun _ => trivial, trivial, trivial, rfl⟩, ⟨le_rfl, fun _ => trivial, trivial, trivial, ?_⟩, trivial⟩
  rintro money received
  obtain rfl := Option.some.inj received
  exact second

def overspent (home : Home Nat) : Option Bool :=
  match read utc home.file with
  | .ok entries =>
    (daily 20000).declarations.head?.map fun declared =>
      match declared.periodKey home.clock with
      | .ok key =>
        let (committed, reserved) := spent entries "os-user:1000" declared key home.clock
        declared.amount.micros < saturatingAdd committed reserved
      | .error _ => false
  | .error _ => none

/-- A charge observed after the fact; a receipt that settles a reservation of the day before, when the new day's
allowance is reserved; a reservation settled twice; a settlement whose first line was written and not synced; and one
whose first line was written in part, after which there are no sums to compare. -/
theorem overspent_runs :
    overspent (dayRun [⟨.commitObserved (usd 30000) "test" "observed", nine, drawn 1 .done⟩]) = some true ∧
    overspent (dayRun [reserveAt (nine + 53700) 1 20000, reserveAt (nine + 54060) 2 20000,
      reconcileAt (nine + 54120) 1 20000 .done]) = some true ∧
    overspent (dayRun [reserveAt nine 1 20000, reconcileAt nine 1 20000 .done, reconcileAt nine 1 20000 .done]) =
      some true ∧
    overspent (dayRun [reserveAt nine 1 15000, reconcileAt nine 1 15000 .unsynced]) = some true ∧
    overspent (dayRun [reserveAt nine 1 20000, reconcileAt nine 1 20000 (.part 9)]) = none := by
  decide +kernel

end CommonMeasure.Allowance
