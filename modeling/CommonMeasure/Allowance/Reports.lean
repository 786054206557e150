import CommonMeasure.Allowance.Figures

/-!
# What the ledger reports

After every run whose appends are done, a state reports the history's sums, cut off at what 64 bits hold.
-/

namespace CommonMeasure.Allowance

section

variable {Uuid Time : Type} {platform : Platform Uuid Time} [DecidableEq Uuid]

structure Reports (past : List (Performed platform)) (principal : String) (now : Time)
    (declared : AllowanceDeclaration platform) (state : PeriodState platform) : Prop where
  period : state.period = declared.period
  key : declared.periodKey now = .ok state.periodKey
  committed : state.committed.micros.toNat = min (settledSum past principal declared state.periodKey) maxMicros
  reserved : state.reserved.micros.toNat = min (heldSum past principal declared state.periodKey now) maxMicros
  currency : state.committed.currency = declared.amount.currency ∧ state.reserved.currency = declared.amount.currency

def Granted (past : List (Performed platform)) (id : Uuid) (principal currency : String) : Prop :=
  ∃ grant ∈ grants past, grant.id = id ∧ grant.principal = principal ∧ grant.money.currency = currency

def Turn.Concerns (past : List (Performed platform)) (turn : Turn platform) (principal currency : String) : Prop :=
  match turn.event.operation with
  | .reserve money _ _ | .commitObserved money _ _ => turn.account.principal = principal ∧ money.currency = currency
  | .reconcile reservation receiptMoney _ _ =>
    (∃ money ∈ receiptMoney, turn.account.principal = principal ∧ money.currency = currency) ∨
      Granted past reservation.id principal currency
  | .release reservation _ => Granted past reservation.id principal currency
  | .state => False

/-! ### Sums over entries and over histories -/

section

variable {past : List (Performed platform)} {file : Bytes} {entries : List (LedgerEntry platform)}
  {principal : String} {declared : AllowanceDeclaration platform} {key : String} {now : Time}

theorem reservedSum_grants {resolved : List Uuid} (same : ∀ id, id ∈ resolved ↔ Resolved past id)
    (entries : List (LedgerEntry platform)) :
    reservedSum resolved entries principal declared key now =
      ((entries.filterMap LedgerEntry.grant).map (Grant.micros past principal declared key now)).sum := by
  induction entries with
  | nil => rfl
  | cons entry entries ih =>
    have first : reservedMicros resolved principal declared key now entry =
        (entry.grant.toList.map (Grant.micros past principal declared key now)).sum := by
      cases entry with
      | reserved entry =>
        have open_ : live resolved now entry = true ↔ Grant.Live past now
            ⟨entry.id, entry.principal, entry.amount, entry.periodKeys, entry.expiresAt⟩ := by
          simp only [live, decide_eq_true_eq, same, Grant.Live]
        simp only [LedgerEntry.grant, Option.toList_some, List.map_cons, List.map_nil, List.sum_cons, List.sum_nil,
          Nat.add_zero, reservedMicros, Grant.micros]
        split
        · rename_i both
          rw [if_pos ⟨both.1, open_.mp both.2⟩]
        · rename_i neither
          rw [if_neg fun both => neither ⟨both.1, open_.mpr both.2⟩]
      | _ => rfl
    unfold reservedSum at ih ⊢
    rw [List.map_cons, List.sum_cons, ih, first]
    cases made : entry.grant with
    | none => simp [made]
    | some grant => simp [made]

theorem Accounted.reserved (records : Accounted past file entries) :
    reservedSum (resolvedIds entries) entries principal declared key now = heldSum past principal declared key now := by
  rw [reservedSum_grants records.resolved, records.granted]
  rfl

theorem standing_reports (records : Accounted past file entries) (zone : ∃ key, declared.periodKey now = .ok key) :
    ∃ state, standing entries principal now declared = .ok state ∧ Reports past principal now declared state := by
  obtain ⟨key, found⟩ := zone
  unfold standing
  rw [found]
  refine ⟨_, rfl, rfl, found, ?_, ?_, declared.amount.upper, declared.amount.upper⟩
  · rw [← records.settled]
    exact spent_committed principal declared key now entries
  · rw [← records.reserved]
    exact spent_reserved principal declared key now entries

end

theorem mapM_forall₂ {α β : Type} {f : α → Except Fault β} {R : α → β → Prop} {xs : List α}
    (each : ∀ x ∈ xs, ∃ y, f x = .ok y ∧ R x y) : ∃ ys, xs.mapM f = .ok ys ∧ List.Forall₂ R xs ys := by
  induction xs with
  | nil => exact ⟨[], rfl, .nil⟩
  | cons x xs ih =>
    obtain ⟨⟨y, first, related⟩, rest⟩ := List.forall_mem_cons.mp each
    obtain ⟨ys, later, all⟩ := ih rest
    refine ⟨y :: ys, ?_, .cons related all⟩
    rw [List.mapM_cons, first, later]
    rfl

section

variable {past : List (Performed platform)} {turn : Turn platform} {file : Bytes}
  {principal : String} {declared : AllowanceDeclaration platform} {key : String}

theorem settled_elsewhere (elsewhere : ¬turn.Concerns past principal declared.amount.currency) :
    ((Performed.settled ⟨file, turn⟩).toList.map (Payment.micros principal declared key)).sum = 0 := by
  obtain ⟨account, operation, now, draws⟩ := turn
  apply List.sum_eq_zero
  intro micros member
  obtain ⟨settlement, listed, rfl⟩ := List.mem_map.mp member
  have made := Option.mem_toList.mp listed
  apply if_neg
  intro counted
  simp only [counts, decide_eq_true_eq] at counted
  obtain ⟨_, _, made⟩ := Option.bind_eq_some_iff.mp made
  obtain ⟨keys, _, made⟩ := Option.bind_eq_some_iff.mp made
  cases operation with
  | reconcile reservation receiptMoney context receiptNote =>
    cases receiptMoney with
    | none => cases made
    | some money =>
      cases made
      exact elsewhere (Or.inl ⟨money, rfl, counted.1, counted.2.1⟩)
  | commitObserved money context note =>
    cases made
    exact elsewhere ⟨counted.1, counted.2.1⟩
  | _ => cases made

omit [DecidableEq Uuid] in
theorem ReserveOutcome.reservation_ite {condition : Prop} [Decidable condition] {reservation held : Reservation platform}
    {checks : List (PeriodCheck platform)}
    (made : (if condition then ReserveOutcome.reserved reservation checks
      else .reservedWithBreach reservation checks).reservation = some held) : reservation = held := by
  split at made
  · exact Option.some.inj made
  · exact Option.some.inj made

theorem reserve_amount {account : Account platform} {amount : Money platform} {now : Time} {context : String}
    {allowBreach : Bool} {draws : Draws Uuid} {outcome : ReserveOutcome platform} {after : Bytes}
    {reservation : Reservation platform}
    (returned : (reserve account amount now context allowBreach draws).on file = (.ok outcome, after))
    (made : outcome.reservation = some reservation) : reservation.amount = amount := by
  unfold reserve at returned
  split at returned
  · obtain ⟨rfl, _⟩ := pure_ok returned
    cases made
  · obtain ⟨swept, _, _, returned⟩ := bind_ok.mp returned
    obtain ⟨checks, _, _, returned⟩ := bind_ok.mp returned
    dsimp only at returned
    split at returned
    · obtain ⟨rfl, _⟩ := pure_ok returned
      cases made
    · obtain ⟨keys, _, _, returned⟩ := bind_ok.mp returned
      obtain ⟨_, _, _, returned⟩ := bind_ok.mp returned
      obtain ⟨rfl, _⟩ := pure_ok returned
      obtain rfl := ReserveOutcome.reservation_ite made
      rfl

theorem granted_elsewhere (elsewhere : ¬turn.Concerns past principal declared.amount.currency) {grant : Grant platform}
    (made : Performed.granted ⟨file, turn⟩ = some grant) :
    counts principal declared key grant.principal grant.money grant.keys = false := by
  obtain ⟨account, operation, now, draws⟩ := turn
  rw [Bool.eq_false_iff]
  intro counted
  simp only [counts, decide_eq_true_eq] at counted
  cases operation with
  | reserve amount context allowBreach =>
    obtain ⟨outcome, returned, made⟩ := Option.bind_eq_some_iff.mp made
    obtain ⟨reservation, reserved, made⟩ := Option.bind_eq_some_iff.mp made
    obtain ⟨keys, _, made⟩ := Option.bind_eq_some_iff.mp made
    cases made
    dsimp only at counted returned
    rcases result : (reserve account amount now context allowBreach draws).on file with ⟨fault | value, after⟩
    · unfold Performed.now at returned
      dsimp only at returned
      rw [result] at returned
      cases returned
    · unfold Performed.now at returned
      dsimp only at returned
      rw [result] at returned
      obtain rfl := Option.some.inj returned
      apply elsewhere
      exact ⟨counted.1, reserve_amount result reserved ▸ counted.2.1⟩
  | _ => cases made

theorem live_elsewhere (distinct : ((grants past).map Grant.id).Nodup)
    (elsewhere : ¬turn.Concerns past principal declared.amount.currency) {grant : Grant platform}
    (made : grant ∈ grants past) (counted : counts principal declared key grant.principal grant.money grant.keys = true)
    {later : Time} (passed : platform.stamp turn.event.now ≤ platform.stamp later) :
    grant.Live (past ++ [⟨file, turn⟩]) later ↔ grant.Live past later := by
  simp only [counts, decide_eq_true_eq] at counted
  unfold Grant.Live
  rw [resolved_append]
  constructor
  · rintro ⟨unresolved, current⟩
    exact ⟨fun resolved => unresolved (Or.inl resolved), current⟩
  · rintro ⟨unresolved, current⟩
    refine ⟨?_, current⟩
    rintro (resolved | names | ⟨_, other, listed, same, expired⟩)
    · exact unresolved resolved
    · obtain ⟨_, _, names⟩ := Option.bind_eq_some_iff.mp names
      have ends : Granted past grant.id principal declared.amount.currency := ⟨grant, made, rfl, counted.1, counted.2.1⟩
      obtain ⟨account, operation, now, draws⟩ := turn
      cases operation with
      | reconcile reservation receiptMoney context receiptNote =>
        have same : reservation.id = grant.id := Option.some.inj names
        rw [← same] at ends
        exact elsewhere (Or.inr ends)
      | release reservation reason =>
        have same : reservation.id = grant.id := Option.some.inj names
        rw [← same] at ends
        exact elsewhere ends
      | _ => cases names
    · obtain rfl := List.inj_on_of_nodup_map distinct listed made same
      have gone : other.expiresAt ≤ platform.stamp later := le_trans expired passed
      exact absurd current (not_lt.mpr gone)

theorem heldSum_elsewhere (distinct : ((grants past).map Grant.id).Nodup)
    (elsewhere : ¬turn.Concerns past principal declared.amount.currency) {later : Time}
    (passed : platform.stamp turn.event.now ≤ platform.stamp later) :
    heldSum (past ++ [⟨file, turn⟩]) principal declared key later = heldSum past principal declared key later := by
  unfold heldSum
  rw [grants_append, List.map_append, List.sum_append]
  have added : (((Performed.granted ⟨file, turn⟩).toList.map
      (Grant.micros (past ++ [⟨file, turn⟩]) principal declared key later)).sum) = 0 := by
    apply List.sum_eq_zero
    intro micros member
    obtain ⟨grant, listed, rfl⟩ := List.mem_map.mp member
    apply if_neg
    rw [granted_elsewhere elsewhere (Option.mem_toList.mp listed)]
    simp
  rw [added, Nat.add_zero]
  apply congrArg List.sum
  apply List.map_congr_left
  intro grant made
  by_cases counted : counts principal declared key grant.principal grant.money grant.keys = true
  · have same : grant.Live (past ++ [⟨file, turn⟩]) later ↔ grant.Live past later :=
      live_elsewhere distinct elsewhere made counted passed
    by_cases still : grant.Live past later
    · rw [Grant.micros, Grant.micros, if_pos ⟨counted, same.mpr still⟩, if_pos ⟨counted, still⟩]
    · rw [Grant.micros, Grant.micros, if_neg fun both => still (same.mp both.2), if_neg fun both => still both.2]
  · simp [Grant.micros, counted]

end

def runTurns (start : Time) (turns : List (Turn platform)) : Home Time := runWith Turn.step ⟨[], start⟩ turns

def historyOf (start : Time) (turns : List (Turn platform)) : List (Performed platform) := history ⟨[], start⟩ turns

structure Exact (start : Time) (turns : List (Turn platform)) : Prop where
  /-- A state is the history's next operation, and reports its sums. -/
  reports : ∀ (account : Account platform) (now : Time) (draws : Draws Uuid), draws.Done →
    (∀ declared ∈ account.declarations, ∃ key, declared.periodKey now = .ok key) →
      ∃ states after, (state account now draws).on (runTurns start turns).file = (.ok states, after) ∧
        List.Forall₂ (Reports (historyOf start (turns ++ [⟨account, .state, now, draws⟩])) account.principal now)
          account.declarations states
  /-- What was committed holds nothing. -/
  once : ∀ settlement ∈ settlements (historyOf start turns), ∀ grant ∈ grants (historyOf start turns),
    settlement.reservedId = some grant.id → ∀ now, ¬grant.Live (historyOf start turns) now
  /-- A receipt is committed whatever became of its reservation, and once. -/
  late : ∀ (turn : Turn platform) reservation money context receiptNote keys, turn.event.draws.Done →
    turn.event.operation = .reconcile reservation (some money) context receiptNote →
      periodKeys turn.account.declarations turn.event.now = .ok keys → ∀ principal declared key,
        settledSum (historyOf start (turns ++ [turn])) principal declared key =
          settledSum (historyOf start turns) principal declared key +
            if counts principal declared key turn.account.principal money keys then money.micros.toNat else 0
  /-- Where ids are distinct, an operation changes no other's figures from its own time on. -/
  elsewhere : ∀ turn : Turn platform, ((grants (historyOf start turns)).map Grant.id).Nodup →
    ∀ principal (declared : AllowanceDeclaration platform), ¬turn.Concerns (historyOf start turns) principal
        declared.amount.currency → ∀ key later, platform.stamp turn.event.now ≤ platform.stamp later →
      settledSum (historyOf start (turns ++ [turn])) principal declared key =
          settledSum (historyOf start turns) principal declared key ∧
        heldSum (historyOf start (turns ++ [turn])) principal declared key later =
          heldSum (historyOf start turns) principal declared key later
  /-- A second sweep of one instant writes nothing. -/
  swept : ∀ now (sweep again : Nat → Uuid × Attempt), (∀ n, (sweep n).2 = .done) → (∀ n, (again n).2 = .done) →
    ∃ entries after, (sweepExpired platform now sweep).on (runTurns start turns).file = (.ok entries, after) ∧
      (sweepExpired platform now again).on after = (.ok entries, after)

theorem historyOf_append (start : Time) (turns : List (Turn platform)) (turn : Turn platform) :
    historyOf start (turns ++ [turn]) = historyOf start turns ++ [⟨(runTurns start turns).file, turn⟩] :=
  history_append ⟨[], start⟩ turns [turn]

theorem records_run (start : Time) {turns : List (Turn platform)} (done : ∀ turn ∈ turns, turn.event.draws.Done) :
    ∃ entries, Accounted (historyOf start turns) (runTurns start turns).file entries := by
  let home : Home Time := ⟨[], start⟩
  have empty : Accounted ([] : List (Performed platform)) home.file [] := accounted_empty
  obtain ⟨entries, records⟩ := empty.run done
  exact ⟨entries, records⟩

theorem names_of_settled {performed : Performed platform} {settlement : Payment platform}
    (settled : performed.settled = some settlement) {id : Uuid} (reserved : settlement.reservedId = some id) :
    performed.names = some id := by
  obtain ⟨before, account, operation, now, draws⟩ := performed
  obtain ⟨_, returned, settled⟩ := Option.bind_eq_some_iff.mp settled
  obtain ⟨keys, _, settled⟩ := Option.bind_eq_some_iff.mp settled
  unfold Performed.names
  rw [returned]
  cases operation with
  | reconcile reservation receiptMoney context receiptNote =>
    cases receiptMoney with
    | none => cases settled
    | some money =>
      cases settled
      exact reserved
  | commitObserved money context note =>
    cases settled
    cases reserved
  | _ => cases settled

theorem state_reports {past : List (Performed platform)} {file : Bytes} {entries : List (LedgerEntry platform)}
    (records : Accounted past file entries) {account : Account platform} {now : Time} {draws : Draws Uuid}
    (done : draws.Done) (zones : ∀ declared ∈ account.declarations, ∃ key, declared.periodKey now = .ok key) :
    ∃ states after, (state account now draws).on file = (.ok states, after) ∧
      List.Forall₂ (Reports (past ++ [⟨file, account, .state, now, draws⟩]) account.principal now)
        account.declarations states := by
  have after : Accounted (past ++ [⟨file, account, .state, now, draws⟩]) (file ++ entryLines (swept entries now draws))
      (entries ++ swept entries now draws) := records.append state_adds
  obtain ⟨states, returned, reported⟩ := mapM_forall₂ fun declared listed =>
    standing_reports after (zones declared listed)
  refine ⟨states, file ++ entryLines (swept entries now draws), ?_, reported⟩
  unfold state
  rw [sweep_bind records.reads done, returned]
  rfl

/-- After every run whose appends are done, the ledger's figures are exactly its history's. -/
theorem figures_exact (start : Time) (turns : List (Turn platform)) (done : ∀ turn ∈ turns, turn.event.draws.Done) :
    Exact start turns := by
  obtain ⟨entries, records⟩ := records_run start done
  refine ⟨?_, ?_, ?_, ?_, ?_⟩
  · intro account now draws drawn zones
    rw [historyOf_append]
    exact state_reports records drawn zones
  · intro settlement settled grant granted reserved now live
    obtain ⟨performed, member, settles⟩ := List.mem_filterMap.mp settled
    exact live.1 (Or.inl ⟨performed, member, names_of_settled settles reserved⟩)
  · intro turn reservation money context receiptNote keys drawn operation found principal declared key
    rw [historyOf_append, settledSum_append]
    obtain ⟨account, performed, now, draws⟩ := turn
    obtain rfl : performed = .reconcile reservation (some money) context receiptNote := operation
    have result : (reconcile account reservation (some money) now context receiptNote draws).on
        (runTurns start turns).file = _ :=
      reconcile_on records.reads drawn reservation money context receiptNote
    dsimp only at found
    rw [found] at result
    have settled : Performed.settled ⟨(runTurns start turns).file, account,
        .reconcile reservation (some money) context receiptNote, now, draws⟩ =
        some ⟨account.principal, money, keys, some reservation.id⟩ := by
      unfold Performed.settled Performed.returned Event.perform Performed.keys Performed.now
      dsimp only
      rw [discard_on, result, found]
      rfl
    rw [settled]
    rfl
  · intro turn distinct principal declared elsewhere key later passed
    rw [historyOf_append]
    refine ⟨?_, heldSum_elsewhere distinct elsewhere passed⟩
    rw [settledSum_append, settled_elsewhere elsewhere, Nat.add_zero]
  · intro now sweep again done againDone
    have first : (sweepExpired platform now sweep).on (runTurns start turns).file = _ := sweepExpired_done records.reads done
    refine ⟨_, _, first, ?_⟩
    have reads := (records.ready.read_entryLines records.reads
      (expiryReleases now sweep 0 (expired entries now))).2
    rw [sweepExpired_done reads againDone, expired_swept]
    simp [expiryReleases, entryLines]

end

/-! ### A day's figures -/

def reserveTurn (now : Nat) (id : Fin 16) (micros : UInt64) : Turn utc := ⟨daily 20000, reserveAt now id micros⟩

def observeTurn (micros : UInt64) (id : Fin 16) : Turn utc :=
  ⟨daily 20000, .commitObserved (usd micros) "test" "observed", nine, drawn id .done⟩

def stateTurn (principal : String) (now : Nat) : Turn utc := ⟨⟨principal, []⟩, .state, now, drawn 14 .done⟩

theorem figures_exact_day : Exact nine
    [reserveTurn nine 1 7000, ⟨daily 20000, reconcileAt nine 1 7000 .done⟩, stateTurn "os-user:1001" (nine + 600)] := by
  apply figures_exact
  simp only [List.forall_mem_cons, List.not_mem_nil, false_implies, implies_true, and_true]
  exact ⟨⟨fun _ => rfl, rfl⟩, ⟨fun _ => rfl, rfl⟩, ⟨fun _ => rfl, rfl⟩⟩

/-- What the account's state is after the run: each period's key, and what is committed and reserved in it. -/
def standings (account : Account utc) (now : Nat) (turns : List (Turn utc)) : Option (List (String × Nat × Nat)) :=
  match ((state account now (drawn 13 .done)).on (runTurns nine turns).file).1 with
  | .ok states => some (states.map fun state =>
      (state.periodKey, state.committed.micros.toNat, state.reserved.micros.toNat))
  | .error _ => none

def monthly (micros : UInt64) : Account utc := ⟨"os-user:1000", [⟨.month, usd micros, "UTC"⟩]⟩

/-- Charges past 64 bits are cut off; a charge made while only the day was declared is in no month; and another
principal's sweep ends a hold for a clock that is behind. -/
theorem figures_differ :
    (((settlements (historyOf nine [observeTurn 18446744073709551615 1, observeTurn 1 2])).map
        fun settlement => settlement.money.micros.toNat).sum = 18446744073709551616 ∧
      standings (daily 20000) nine [observeTurn 18446744073709551615 1, observeTurn 1 2] =
        some [("2026-08-22", 18446744073709551615, 0)]) ∧
    standings (monthly 20000) nine [observeTurn 7000 1] = some [("2026-08", 0, 0)] ∧
    standings (daily 20000) nine [reserveTurn nine 1 7000] = some [("2026-08-22", 0, 7000)] ∧
    standings (daily 20000) nine [reserveTurn nine 1 7000, stateTurn "os-user:1001" (nine + 600)] =
      some [("2026-08-22", 0, 0)] := by
  decide +kernel

end CommonMeasure.Allowance
