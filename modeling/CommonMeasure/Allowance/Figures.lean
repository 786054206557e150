import CommonMeasure.Allowance.Bound

/-!
# What a period's figures are sums of

The ledger's purpose, without its file: the operations performed, what each granted and settled, and what has
been resolved since.
-/

namespace CommonMeasure.Allowance

section

variable {Uuid Time : Type} {platform : Platform Uuid Time} [DecidableEq Uuid]

/-! ### Histories -/

structure Turn (platform : Platform Uuid Time) where
  account : Account platform
  event : Event platform

def Turn.step (home : Home Time) (turn : Turn platform) : Home Time := Allowance.step turn.account home turn.event

structure Draws.Done (draws : Draws Uuid) : Prop where
  sweep : ∀ n, (draws.sweep n).2 = .done
  first : draws.first = .done

structure Performed (platform : Platform Uuid Time) where
  before : Bytes
  turn : Turn platform

def history (home : Home Time) : List (Turn platform) → List (Performed platform)
  | [] => []
  | turn :: turns => ⟨home.file, turn⟩ :: history (turn.step home) turns

structure Payment (platform : Platform Uuid Time) where
  principal : String
  money : Money platform
  keys : PeriodKeys
  reservedId : Option Uuid

structure Grant (platform : Platform Uuid Time) where
  id : Uuid
  principal : String
  money : Money platform
  keys : PeriodKeys
  expiresAt : String

def Performed.now (performed : Performed platform) : Time := performed.turn.event.now

def Performed.returned (performed : Performed platform) : Option Unit :=
  ((performed.turn.event.perform performed.turn.account).on performed.before).1.toOption

def Performed.keys (performed : Performed platform) : Option PeriodKeys :=
  (periodKeys performed.turn.account.declarations performed.now).toOption

def Performed.settled (performed : Performed platform) : Option (Payment platform) := do
  performed.returned
  let keys ← performed.keys
  match performed.turn.event.operation with
  | .reconcile reservation (some money) _ _ => some ⟨performed.turn.account.principal, money, keys, some reservation.id⟩
  | .commitObserved money _ _ => some ⟨performed.turn.account.principal, money, keys, none⟩
  | _ => none

def ReserveOutcome.reservation : ReserveOutcome platform → Option (Reservation platform)
  | .reserved reservation _ | .reservedWithBreach reservation _ => some reservation
  | .nothingDeclared | .declined _ => none

def Performed.granted (performed : Performed platform) : Option (Grant platform) :=
  match performed.turn.event.operation with
  | .reserve amount context allowBreach => do
    let outcome ← ((reserve performed.turn.account amount performed.now context allowBreach
      performed.turn.event.draws).on performed.before).1.toOption
    let reservation ← outcome.reservation
    let keys ← performed.keys
    some ⟨reservation.id, performed.turn.account.principal, reservation.amount, keys,
      platform.stamp (platform.expiry performed.now)⟩
  | _ => none

def Performed.names (performed : Performed platform) : Option Uuid := do
  performed.returned
  match performed.turn.event.operation with
  | .reconcile reservation _ _ _ | .release reservation _ => some reservation.id
  | _ => none

def Performed.sweeps (performed : Performed platform) : Bool :=
  match performed.turn.event.operation with
  | .reserve _ _ _ | .commitObserved _ _ _ => !performed.turn.account.declarations.isEmpty
  | .reconcile _ _ _ _ | .state => true
  | .release _ _ => false

def settlements (past : List (Performed platform)) : List (Payment platform) := past.filterMap Performed.settled

def grants (past : List (Performed platform)) : List (Grant platform) := past.filterMap Performed.granted

def Swept (past : List (Performed platform)) (performed : Performed platform) (id : Uuid) : Prop :=
  performed.sweeps = true ∧ ∃ grant ∈ grants past, grant.id = id ∧ grant.expiresAt ≤ platform.stamp performed.now

def Resolved (past : List (Performed platform)) (id : Uuid) : Prop :=
  (∃ performed ∈ past, performed.names = some id) ∨
    ∃ earlier performed later, past = earlier ++ performed :: later ∧ Swept earlier performed id

def Grant.Live (past : List (Performed platform)) (now : Time) (grant : Grant platform) : Prop :=
  ¬Resolved past grant.id ∧ platform.stamp now < grant.expiresAt

def Payment.micros (principal : String) (declared : AllowanceDeclaration platform) (key : String)
    (settlement : Payment platform) : Nat :=
  if counts principal declared key settlement.principal settlement.money settlement.keys then
    settlement.money.micros.toNat
  else 0

open Classical in
noncomputable def Grant.micros (past : List (Performed platform)) (principal : String)
    (declared : AllowanceDeclaration platform) (key : String) (now : Time) (grant : Grant platform) : Nat :=
  if counts principal declared key grant.principal grant.money grant.keys ∧ grant.Live past now then
    grant.money.micros.toNat
  else 0

def settledSum (past : List (Performed platform)) (principal : String) (declared : AllowanceDeclaration platform)
    (key : String) : Nat :=
  ((settlements past).map (Payment.micros principal declared key)).sum

/-- The principal's reservations in the declaration's currency that still hold, in the period of that key. -/
noncomputable def heldSum (past : List (Performed platform)) (principal : String)
    (declared : AllowanceDeclaration platform) (key : String) (now : Time) : Nat :=
  ((grants past).map (Grant.micros past principal declared key now)).sum

section

variable {past : List (Performed platform)} {performed : Performed platform}

theorem settledSum_append (principal : String) (declared : AllowanceDeclaration platform) (key : String) :
    settledSum (past ++ [performed]) principal declared key =
      settledSum past principal declared key +
        (performed.settled.toList.map (Payment.micros principal declared key)).sum := by
  unfold settledSum settlements
  rw [List.filterMap_append, List.map_append, List.sum_append]
  cases settled : performed.settled with
  | none => simp [settled]
  | some settlement => simp [settled]

theorem grants_append : grants (past ++ [performed]) = grants past ++ performed.granted.toList := by
  unfold grants
  rw [List.filterMap_append]
  cases granted : performed.granted with
  | none => simp [granted]
  | some grant => simp [granted]

theorem resolved_append (id : Uuid) :
    Resolved (past ++ [performed]) id ↔ Resolved past id ∨ performed.names = some id ∨ Swept past performed id := by
  constructor
  · rintro (⟨named, member, names⟩ | ⟨earlier, sweeping, later, same, swept⟩)
    · rcases List.mem_append.mp member with before | last
      · exact Or.inl (Or.inl ⟨named, before, names⟩)
      · obtain rfl := List.mem_singleton.mp last
        exact Or.inr (Or.inl names)
    · rcases List.eq_nil_or_concat later with rfl | ⟨later, last, rfl⟩
      · obtain ⟨rfl, rfl⟩ := List.append_singleton_inj.mp same
        exact Or.inr (Or.inr swept)
      · rw [List.concat_eq_append, ← List.cons_append, ← List.append_assoc] at same
        obtain ⟨rfl, _⟩ := List.append_singleton_inj.mp same
        exact Or.inl (Or.inr ⟨earlier, sweeping, later, rfl, swept⟩)
  · rintro ((⟨named, member, names⟩ | ⟨earlier, sweeping, later, rfl, swept⟩) | names | swept)
    · exact Or.inl ⟨named, List.mem_append_left _ member, names⟩
    · exact Or.inr ⟨earlier, sweeping, later ++ [performed], by simp, swept⟩
    · exact Or.inl ⟨performed, by simp, names⟩
    · exact Or.inr ⟨past, performed, [], rfl, swept⟩

end

section

variable {file : Bytes} {entries : List (LedgerEntry platform)}

omit [DecidableEq Uuid] in
theorem pure_on {α : Type} (a : α) : (pure a : LedgerM α).on file = (.ok a, file) := rfl

omit [DecidableEq Uuid] in
theorem lift_on {α β : Type} (result : Except Fault α) (next : α → LedgerM β) :
    (liftM result >>= next).on file =
      match result with
      | .ok a => (next a).on file
      | .error fault => (.error fault, file) := by
  cases result <;> rfl

def expiryReleases (now : Time) (sweep : Nat → Uuid × Attempt) : Nat → List (Reserved platform) →
    List (LedgerEntry platform)
  | _, [] => []
  | drawn, entry :: more => expiryRelease (sweep drawn).1 now entry :: expiryReleases now sweep (drawn + 1) more

omit [DecidableEq Uuid] in
theorem releaseEach_done {now : Time} {sweep : Nat → Uuid × Attempt} (done : ∀ n, (sweep n).2 = .done) (drawn : Nat)
    (reservations : List (Reserved platform)) (accumulated : List (LedgerEntry platform)) (file : Bytes) :
    (releaseEach now sweep drawn reservations accumulated).on file =
      (.ok (accumulated ++ expiryReleases now sweep drawn reservations),
        file ++ entryLines (expiryReleases now sweep drawn reservations)) := by
  induction reservations generalizing drawn accumulated file with
  | nil => simp [releaseEach, expiryReleases, entryLines, pure_on]
  | cons reservation reservations ih =>
    rw [releaseEach, bind_on, append_on, if_pos (done drawn)]
    show (releaseEach now sweep (drawn + 1) reservations _).on _ = _
    rw [ih, done drawn]
    simp [expiryReleases, entryLines, Attempt.written]

omit [DecidableEq Uuid] in
theorem resolvedIds_expiryReleases (now : Time) (sweep : Nat → Uuid × Attempt) (drawn : Nat)
    (reservations : List (Reserved platform)) :
    resolvedIds (expiryReleases now sweep drawn reservations) = reservations.map Reserved.id := by
  induction reservations generalizing drawn with
  | nil => rfl
  | cons reservation reservations ih =>
    rw [expiryReleases, List.map_cons, ← ih (drawn + 1)]
    rfl

omit [DecidableEq Uuid] in
theorem expiryReleases_released (now : Time) (sweep : Nat → Uuid × Attempt) (drawn : Nat)
    (reservations : List (Reserved platform)) :
    ∀ entry ∈ expiryReleases now sweep drawn reservations, ∃ released, entry = .released released := by
  induction reservations generalizing drawn with
  | nil => simp [expiryReleases]
  | cons reservation reservations ih =>
    intro entry member
    rcases List.mem_cons.mp member with rfl | later
    · exact ⟨_, rfl⟩
    · exact ih (drawn + 1) entry later

theorem sweepExpired_done (reads : read platform file = .ok entries) {now : Time} {sweep : Nat → Uuid × Attempt}
    (done : ∀ n, (sweep n).2 = .done) :
    (sweepExpired platform now sweep).on file =
      (.ok (entries ++ expiryReleases now sweep 0 (expired entries now)),
        file ++ entryLines (expiryReleases now sweep 0 (expired entries now))) := by
  rw [← releaseEach_done done]
  unfold sweepExpired
  rw [bind_on]
  show LedgerM.on (liftM (read platform file) >>= fun entries =>
    releaseEach now sweep 0 (expired entries now) entries) file = _
  rw [reads]
  rfl

theorem expired_swept (entries : List (LedgerEntry platform)) (now : Time) (sweep : Nat → Uuid × Attempt) :
    expired (entries ++ expiryReleases now sweep 0 (expired entries now)) now = [] := by
  apply List.eq_nil_iff_forall_not_mem.mpr
  intro reservation member
  obtain ⟨entry, listed, kept⟩ := List.mem_filterMap.mp member
  cases entry with
  | reserved entry =>
    dsimp only at kept
    split at kept
    · rename_i open_
      obtain rfl := Option.some.inj kept
      rw [resolvedIds_append, resolvedIds_expiryReleases, List.mem_append, not_or] at open_
      apply open_.1.2
      apply List.mem_map_of_mem
      rcases List.mem_append.mp listed with earlier | released
      · exact List.mem_filterMap.mpr ⟨.reserved entry, earlier, if_pos ⟨open_.1.1, open_.2⟩⟩
      · obtain ⟨_, same⟩ := expiryReleases_released now sweep 0 _ _ released
        cases same
    · cases kept
  | _ => cases kept

def LedgerEntry.grant : LedgerEntry platform → Option (Grant platform)
  | .reserved entry => some ⟨entry.id, entry.principal, entry.amount, entry.periodKeys, entry.expiresAt⟩
  | _ => none

structure Accounted (past : List (Performed platform)) (file : Bytes) (entries : List (LedgerEntry platform)) : Prop where
  ready : Ready file
  reads : read platform file = .ok entries
  settled : ∀ principal declared key, committedSum entries principal declared key = settledSum past principal declared key
  granted : entries.filterMap LedgerEntry.grant = grants past
  resolved : ∀ id, id ∈ resolvedIds entries ↔ Resolved past id

structure Adds (entries : List (LedgerEntry platform)) (performed : Performed platform)
    (added : List (LedgerEntry platform)) : Prop where
  settled : ∀ principal declared key, committedSum added principal declared key =
    (performed.settled.toList.map (Payment.micros principal declared key)).sum
  granted : added.filterMap LedgerEntry.grant = performed.granted.toList
  resolved : ∀ id, id ∈ resolvedIds entries ∨ id ∈ resolvedIds added ↔
    id ∈ resolvedIds entries ∨ performed.names = some id ∨
      (performed.sweeps = true ∧ ∃ reservation ∈ expired entries performed.now, reservation.id = id)

theorem mem_expired_iff {now : Time} {id : Uuid} (unresolved : id ∉ resolvedIds entries) :
    (∃ reservation ∈ expired entries now, reservation.id = id) ↔
      ∃ grant ∈ entries.filterMap LedgerEntry.grant, grant.id = id ∧ grant.expiresAt ≤ platform.stamp now := by
  constructor
  · rintro ⟨reservation, member, rfl⟩
    obtain ⟨listed, passed⟩ := mem_expired member
    exact ⟨_, List.mem_filterMap.mpr ⟨.reserved reservation, listed, rfl⟩, rfl, passed⟩
  · rintro ⟨grant, member, rfl, passed⟩
    obtain ⟨entry, listed, made⟩ := List.mem_filterMap.mp member
    cases entry with
    | reserved entry =>
      obtain rfl := Option.some.inj made
      exact ⟨entry, List.mem_filterMap.mpr ⟨.reserved entry, listed, if_pos ⟨unresolved, passed⟩⟩, rfl⟩
    | _ => cases made

theorem Accounted.append {past : List (Performed platform)} (records : Accounted past file entries)
    {performed : Performed platform} {added : List (LedgerEntry platform)} (adds : Adds entries performed added) :
    Accounted (past ++ [performed]) (file ++ entryLines added) (entries ++ added) := by
  obtain ⟨ready, reads⟩ := records.ready.read_entryLines records.reads added
  refine ⟨ready, reads, ?_, ?_, ?_⟩
  · intro principal declared key
    rw [settledSum_append, ← records.settled, ← adds.settled]
    simp [committedSum]
  · rw [List.filterMap_append, records.granted, adds.granted, grants_append]
  · intro id
    rw [resolvedIds_append, List.mem_append, adds.resolved, resolved_append, ← records.resolved]
    by_cases known : id ∈ resolvedIds entries
    · simp [known]
    · rw [mem_expired_iff known, records.granted]
      rfl

section

variable {draws : Draws Uuid} {now : Time} {account : Account platform}

omit [DecidableEq Uuid] in
theorem append_done (done : draws.first = .done) (entry : LedgerEntry platform) :
    (append entry draws.first).on file = (.ok (), file ++ entryLines [entry]) := by
  rw [append_on, if_pos done, done]
  simp [Attempt.written, entryLines]

omit [DecidableEq Uuid] in
theorem appendSettlement_done (done : draws.first = .done) (entry : LedgerEntry platform) (second : Attempt) :
    (appendSettlement entry draws.first second).on file = (.ok (), file ++ entryLines [entry]) := by
  rw [done]
  show (Except.ok (), file ++ (entry.line ++ [newline])) = _
  simp [entryLines]

def swept (entries : List (LedgerEntry platform)) (now : Time) (draws : Draws Uuid) : List (LedgerEntry platform) :=
  expiryReleases now draws.sweep 0 (expired entries now)

theorem sweep_bind (reads : read platform file = .ok entries) (done : draws.Done) {β : Type}
    (next : List (LedgerEntry platform) → LedgerM β) :
    (sweepExpired platform now draws.sweep >>= next).on file =
      (next (entries ++ swept entries now draws)).on (file ++ entryLines (swept entries now draws)) := by
  rw [bind_on, sweepExpired_done reads done.sweep]
  rfl

theorem swept_committedSum (principal : String) (declared : AllowanceDeclaration platform) (key : String) :
    committedSum (swept entries now draws) principal declared key = 0 := by
  apply List.sum_eq_zero
  intro micros member
  obtain ⟨entry, listed, rfl⟩ := List.mem_map.mp member
  obtain ⟨released, rfl⟩ := expiryReleases_released _ _ _ _ entry listed
  rfl

theorem swept_grants : (swept entries now draws).filterMap LedgerEntry.grant = [] := by
  apply List.filterMap_eq_nil_iff.mpr
  intro entry listed
  obtain ⟨released, rfl⟩ := expiryReleases_released _ _ _ _ entry listed
  rfl

theorem mem_resolvedIds_swept {id : Uuid} :
    id ∈ resolvedIds (swept entries now draws) ↔ ∃ reservation ∈ expired entries now, reservation.id = id := by
  rw [swept, resolvedIds_expiryReleases, List.mem_map]

omit [DecidableEq Uuid] in
theorem entryLines_append (first second : List (LedgerEntry platform)) :
    entryLines (first ++ second) = entryLines first ++ entryLines second := by
  simp [entryLines]

theorem adds_of_sweep {performed : Performed platform} {own : List (LedgerEntry platform)}
    (sweeps : performed.sweeps = true)
    (settled : ∀ principal declared key, committedSum own principal declared key =
      (performed.settled.toList.map (Payment.micros principal declared key)).sum)
    (granted : own.filterMap LedgerEntry.grant = performed.granted.toList)
    (names : ∀ id, id ∈ resolvedIds own ↔ performed.names = some id) :
    Adds entries performed (swept entries performed.now draws ++ own) := by
  refine ⟨?_, ?_, ?_⟩
  · intro principal declared key
    have none_swept : committedSum (swept entries performed.now draws) principal declared key = 0 :=
      swept_committedSum principal declared key
    rw [← settled, ← Nat.zero_add (committedSum own principal declared key), ← none_swept]
    simp [committedSum]
  · rw [List.filterMap_append, swept_grants, granted, List.nil_append]
  · intro id
    rw [resolvedIds_append, List.mem_append, mem_resolvedIds_swept, names, sweeps]
    simp only [true_and]
    exact or_congr_right or_comm

theorem discard_on {α : Type} (operation : LedgerM α) :
    (operation >>= fun _ => pure ()).on file = ((operation.on file).1.map fun _ => (), (operation.on file).2) := by
  rw [bind_on]
  rcases operation.on file with ⟨fault | a, after⟩
  · rfl
  · rfl

def commitEntry (account : Account platform) (reservedId : Option Uuid) (amount : Money platform) (keys : PeriodKeys)
    (now : Time) (context note : String) (draws : Draws Uuid) : LedgerEntry platform :=
  .committed {
    id := draws.id
    reservedId
    principal := account.principal
    amount
    periodKeys := keys
    at_ := platform.stamp now
    context
    note }

theorem reconcile_on (reads : read platform file = .ok entries) (done : draws.Done) (reservation : Reservation platform)
    (money : Money platform) (context receiptNote : String) :
    (reconcile account reservation (some money) now context receiptNote draws).on file =
      match periodKeys account.declarations now with
      | .error fault => (.error fault, file ++ entryLines (swept entries now draws))
      | .ok keys =>
        (.ok (settlementNote reservation money receiptNote), file ++ entryLines (swept entries now draws ++
          [commitEntry account (some reservation.id) money keys now context
            (settlementNote reservation money receiptNote) draws])) := by
  unfold reconcile
  rw [sweep_bind reads done]
  dsimp only
  rw [lift_on]
  cases periodKeys account.declarations now with
  | error fault => rfl
  | ok keys =>
    dsimp only
    rw [bind_on, appendSettlement_done done.first, entryLines_append, List.append_assoc]
    rfl

theorem commitObserved_on (reads : read platform file = .ok entries) (done : draws.Done) (money : Money platform)
    (context note : String) (declares : account.declarations.isEmpty = false) :
    (commitObserved account money now context note draws).on file =
      match periodKeys account.declarations now with
      | .error fault => (.error fault, file ++ entryLines (swept entries now draws))
      | .ok keys =>
        (.ok (), file ++ entryLines (swept entries now draws ++
          [commitEntry account none money keys now context note draws])) := by
  unfold commitObserved
  rw [declares, if_neg (by simp), sweep_bind reads done, lift_on]
  cases periodKeys account.declarations now with
  | error fault => rfl
  | ok keys =>
    dsimp only
    rw [appendSettlement_done done.first, entryLines_append, List.append_assoc]
    rfl

theorem release_adds (done : draws.Done) (reservation : Reservation platform) (reason : String) :
    ∃ added, ((release reservation now reason draws).on file).2 = file ++ entryLines added ∧
      Adds entries ⟨file, account, .release reservation reason, now, draws⟩ added := by
  refine ⟨_, congrArg Prod.snd (append_done done.first _), ?_, ?_, ?_⟩
  · intro principal declared key
    have none_settled : Performed.settled ⟨file, account, .release reservation reason, now, draws⟩ = none := by
      unfold Performed.settled
      simp
    rw [none_settled]
    rfl
  · rfl
  · intro id
    have returned : Performed.returned ⟨file, account, .release reservation reason, now, draws⟩ = some () := by
      unfold Performed.returned Event.perform
      dsimp only [release]
      rw [append_done done.first]
      rfl
    have names : Performed.names ⟨file, account, .release reservation reason, now, draws⟩ = some reservation.id := by
      unfold Performed.names
      rw [returned]
      rfl
    rw [names]
    simp [resolvedIds, Performed.sweeps, eq_comm]

theorem adds_nothing {performed : Performed platform} (sweeps : performed.sweeps = true)
    (failed : performed.settled = none) (refused : performed.granted = none) (names : performed.names = none) :
    Adds entries performed (swept entries performed.now draws) := by
  have adds : Adds entries performed (swept entries performed.now draws ++ []) := by
    apply adds_of_sweep sweeps
    · intro principal declared key
      rw [failed]
      rfl
    · rw [refused]
      rfl
    · intro id
      rw [names]
      simp [resolvedIds]
  rwa [List.append_nil] at adds

theorem adds_commit {performed : Performed platform} (sweeps : performed.sweeps = true) {reservedId : Option Uuid}
    {money : Money platform} {keys : PeriodKeys} {context note : String}
    (settled : performed.settled = some ⟨account.principal, money, keys, reservedId⟩) (refused : performed.granted = none)
    (names : performed.names = reservedId) :
    Adds entries performed (swept entries performed.now draws ++
      [commitEntry account reservedId money keys now context note draws]) := by
  apply adds_of_sweep sweeps
  · intro principal declared key
    rw [settled]
    rfl
  · rw [refused]
    rfl
  · intro id
    rw [names]
    cases reservedId with
    | none => simp [resolvedIds, commitEntry]
    | some reservedId => simp [resolvedIds, commitEntry, eq_comm]

theorem reconcile_adds (reads : read platform file = .ok entries) (done : draws.Done) (reservation : Reservation platform)
    (receiptMoney : Option (Money platform)) (context receiptNote : String) :
    ∃ added,
      ((reconcile account reservation receiptMoney now context receiptNote draws).on file).2 = file ++ entryLines added ∧
        Adds entries ⟨file, account, .reconcile reservation receiptMoney context receiptNote, now, draws⟩ added := by
  cases receiptMoney with
  | none =>
    obtain ⟨reason, result⟩ : ∃ reason, (reconcile account reservation none now context receiptNote draws).on file =
        (.ok reason, file ++ entryLines (swept entries now draws ++ [.released ⟨draws.id, reservation.id,
          platform.stamp now, reason⟩])) := by
      unfold reconcile
      rw [sweep_bind reads done]
      dsimp only
      rw [bind_on, appendSettlement_done done.first, List.append_assoc, ← entryLines_append]
      exact ⟨_, rfl⟩
    have returned : Performed.returned ⟨file, account, .reconcile reservation none context receiptNote, now, draws⟩ =
        some () := by
      unfold Performed.returned Event.perform
      dsimp only
      rw [discard_on, result]
      rfl
    refine ⟨_, congrArg Prod.snd result, adds_of_sweep rfl ?_ rfl ?_⟩
    · intro principal declared key
      have none_settled : Performed.settled ⟨file, account, .reconcile reservation none context receiptNote, now, draws⟩ =
          none := by
        unfold Performed.settled
        simp
      rw [none_settled]
      rfl
    · intro id
      have names : Performed.names ⟨file, account, .reconcile reservation none context receiptNote, now, draws⟩ =
          some reservation.id := by
        unfold Performed.names
        rw [returned]
        rfl
      rw [names]
      simp [resolvedIds, eq_comm]
  | some money =>
    have result : (reconcile account reservation (some money) now context receiptNote draws).on file = _ :=
      reconcile_on reads done reservation money context receiptNote
    cases keys : periodKeys account.declarations now with
    | error fault =>
      rw [keys] at result
      have failed : Performed.returned
          ⟨file, account, .reconcile reservation (some money) context receiptNote, now, draws⟩ = none := by
        unfold Performed.returned Event.perform
        dsimp only
        rw [discard_on, result]
        rfl
      refine ⟨_, congrArg Prod.snd result, adds_nothing rfl ?_ rfl ?_⟩
      · unfold Performed.settled
        rw [failed]
        rfl
      · unfold Performed.names
        rw [failed]
        rfl
    | ok keys =>
      rw [keys] at result
      have returned : Performed.returned
          ⟨file, account, .reconcile reservation (some money) context receiptNote, now, draws⟩ = some () := by
        unfold Performed.returned Event.perform
        dsimp only
        rw [discard_on, result]
        rfl
      refine ⟨_, congrArg Prod.snd result, adds_commit rfl ?_ rfl ?_⟩
      · unfold Performed.settled Performed.keys Performed.now
        rw [returned]
        dsimp only
        rw [keys]
        rfl
      · unfold Performed.names
        rw [returned]
        rfl

theorem commitObserved_adds (reads : read platform file = .ok entries) (done : draws.Done) (money : Money platform)
    (context note : String) :
    ∃ added, ((commitObserved account money now context note draws).on file).2 = file ++ entryLines added ∧
      Adds entries ⟨file, account, .commitObserved money context note, now, draws⟩ added := by
  have names : Performed.names ⟨file, account, .commitObserved money context note, now, draws⟩ = none := by
    unfold Performed.names
    simp
  cases declares : account.declarations.isEmpty with
  | true =>
    have result : (commitObserved account money now context note draws).on file = (.ok (), file) := by
      unfold commitObserved
      rw [declares, if_pos rfl]
      rfl
    have sweeps : Performed.sweeps ⟨file, account, .commitObserved money context note, now, draws⟩ = false := by
      unfold Performed.sweeps
      dsimp only
      rw [declares]
      rfl
    refine ⟨[], by rw [result]; simp [entryLines], ?_, rfl, ?_⟩
    · intro principal declared key
      obtain ⟨principal_, declarations⟩ := account
      obtain rfl : declarations = [] := List.isEmpty_iff.mp declares
      have settled : Performed.settled ⟨file, ⟨principal_, []⟩, .commitObserved money context note, now, draws⟩ =
          some ⟨principal_, money, ⟨none, none⟩, none⟩ := rfl
      have uncounted : counts principal declared key principal_ money ⟨none, none⟩ = false := by
        cases period : declared.period <;> simp [counts, period, PeriodKeys.get]
      rw [settled]
      simp [committedSum, Payment.micros, uncounted]
    · intro id
      rw [names, sweeps]
      simp [resolvedIds]
  | false =>
    have sweeps : Performed.sweeps ⟨file, account, .commitObserved money context note, now, draws⟩ = true := by
      unfold Performed.sweeps
      dsimp only
      rw [declares]
      rfl
    have result : (commitObserved account money now context note draws).on file = _ :=
      commitObserved_on reads done money context note declares
    cases keys : periodKeys account.declarations now with
    | error fault =>
      rw [keys] at result
      refine ⟨_, congrArg Prod.snd result, adds_nothing sweeps ?_ rfl names⟩
      unfold Performed.settled Performed.returned Event.perform
      dsimp only
      rw [result]
      rfl
    | ok keys =>
      rw [keys] at result
      refine ⟨_, congrArg Prod.snd result, adds_commit sweeps ?_ rfl names⟩
      unfold Performed.settled Performed.returned Event.perform Performed.keys Performed.now
      dsimp only
      rw [result, keys]
      rfl

theorem state_adds : Adds entries ⟨file, account, .state, now, draws⟩ (swept entries now draws) := by
  apply adds_nothing rfl ?_ rfl ?_
  · unfold Performed.settled
    simp
  · unfold Performed.names
    simp

def reserveEntry (account : Account platform) (amount : Money platform) (keys : PeriodKeys) (now : Time) (context : String)
    (draws : Draws Uuid) : LedgerEntry platform :=
  .reserved {
    id := draws.id
    principal := account.principal
    amount
    periodKeys := keys
    at_ := platform.stamp now
    expiresAt := platform.stamp (platform.expiry now)
    pid := draws.pid
    context }

theorem reserve_on (reads : read platform file = .ok entries) (done : draws.Done) (amount : Money platform)
    (context : String) (allowBreach : Bool) (declares : account.declarations.isEmpty = false) :
    (∃ outcome, (reserve account amount now context allowBreach draws).on file =
        (outcome, file ++ entryLines (swept entries now draws)) ∧
      outcome.toOption.bind ReserveOutcome.reservation = none) ∨
    ∃ keys outcome, periodKeys account.declarations now = .ok keys ∧
      (reserve account amount now context allowBreach draws).on file =
        (.ok outcome, file ++ entryLines (swept entries now draws ++
          [reserveEntry account amount keys now context draws])) ∧
      outcome.reservation = some ⟨draws.id, amount⟩ := by
  unfold reserve
  rw [declares, if_neg (by simp), sweep_bind reads done, lift_on]
  cases checksFor (entries ++ swept entries now draws) account (some amount) now with
  | error fault => exact Or.inl ⟨_, rfl, rfl⟩
  | ok checks =>
    dsimp only
    split
    · exact Or.inl ⟨_, rfl, rfl⟩
    · rw [lift_on]
      cases periodKeys account.declarations now with
      | error fault => exact Or.inl ⟨_, rfl, rfl⟩
      | ok keys =>
        right
        dsimp only
        rw [bind_on, append_done done.first, List.append_assoc, ← entryLines_append]
        refine ⟨keys, _, rfl, rfl, ?_⟩
        split <;> rfl

theorem reserve_adds (reads : read platform file = .ok entries) (done : draws.Done) (amount : Money platform)
    (context : String) (allowBreach : Bool) :
    ∃ added, ((reserve account amount now context allowBreach draws).on file).2 = file ++ entryLines added ∧
      Adds entries ⟨file, account, .reserve amount context allowBreach, now, draws⟩ added := by
  have settled : Performed.settled ⟨file, account, .reserve amount context allowBreach, now, draws⟩ = none := by
    unfold Performed.settled
    simp
  have names : Performed.names ⟨file, account, .reserve amount context allowBreach, now, draws⟩ = none := by
    unfold Performed.names
    simp
  cases declares : account.declarations.isEmpty with
  | true =>
    have result : (reserve account amount now context allowBreach draws).on file = (.ok .nothingDeclared, file) := by
      unfold reserve
      rw [declares, if_pos rfl]
      rfl
    have refused : Performed.granted ⟨file, account, .reserve amount context allowBreach, now, draws⟩ = none := by
      unfold Performed.granted Performed.now
      dsimp only
      rw [result]
      rfl
    have sweeps : Performed.sweeps ⟨file, account, .reserve amount context allowBreach, now, draws⟩ = false := by
      unfold Performed.sweeps
      dsimp only
      rw [declares]
      rfl
    refine ⟨[], by rw [result]; simp [entryLines], ?_, by rw [refused]; rfl, ?_⟩
    · intro principal declared key
      rw [settled]
      rfl
    · intro id
      rw [names, sweeps]
      simp [resolvedIds]
  | false =>
    have sweeps : Performed.sweeps ⟨file, account, .reserve amount context allowBreach, now, draws⟩ = true := by
      unfold Performed.sweeps
      dsimp only
      rw [declares]
      rfl
    have result := @reserve_on Uuid Time platform _ file entries draws now account reads done amount context allowBreach declares
    rcases result with
      ⟨outcome, result, without⟩ | ⟨keys, outcome, found, result, made⟩
    · refine ⟨_, congrArg Prod.snd result, adds_nothing sweeps settled ?_ names⟩
      unfold Performed.granted Performed.now
      dsimp only
      rw [result]
      cases outcome with
      | error fault => rfl
      | ok outcome =>
        have without : outcome.reservation = none := without
        show (outcome.reservation.bind fun _ => _) = none
        rw [without]
        rfl
    · refine ⟨_, congrArg Prod.snd result, adds_of_sweep sweeps ?_ ?_ ?_⟩
      · intro principal declared key
        rw [settled]
        rfl
      · unfold Performed.granted Performed.keys Performed.now
        dsimp only
        rw [result, found]
        show _ = (outcome.reservation.bind fun _ => _).toList
        rw [made]
        rfl
      · intro id
        rw [names]
        simp [resolvedIds, reserveEntry]

theorem perform_adds {performed : Performed platform} (reads : read platform performed.before = .ok entries)
    (done : performed.turn.event.draws.Done) :
    ∃ added, ((performed.turn.event.perform performed.turn.account).on performed.before).2 =
      performed.before ++ entryLines added ∧ Adds entries performed added := by
  obtain ⟨before, account, operation, now, draws⟩ := performed
  cases operation with
  | reserve amount context allowBreach =>
    unfold Event.perform
    dsimp only
    rw [pure_after]
    exact reserve_adds reads done amount context allowBreach
  | reconcile reservation receiptMoney context receiptNote =>
    unfold Event.perform
    dsimp only
    rw [pure_after]
    exact reconcile_adds reads done reservation receiptMoney context receiptNote
  | release reservation reason => exact release_adds done reservation reason
  | commitObserved amount context note => exact commitObserved_adds reads done amount context note
  | state =>
    unfold Event.perform
    dsimp only
    rw [pure_after]
    refine ⟨_, ?_, state_adds⟩
    unfold state
    rw [sweep_bind reads done, lift_file]

end

/-! ### Runs -/

theorem accounted_empty : Accounted ([] : List (Performed platform)) [] [] where
  ready := by decide +kernel
  reads := rfl
  settled _ _ _ := rfl
  granted := rfl
  resolved id := by simp [resolvedIds, Resolved]

theorem history_append (home : Home Time) (turns more : List (Turn platform)) :
    history home (turns ++ more) = history home turns ++ history (runWith Turn.step home turns) more := by
  induction turns generalizing home with
  | nil => rfl
  | cons turn turns ih => rw [List.cons_append, history, history, ih, runWith_cons, List.cons_append]

theorem Accounted.run {past : List (Performed platform)} {home : Home Time} (records : Accounted past home.file entries)
    {turns : List (Turn platform)} (done : ∀ turn ∈ turns, turn.event.draws.Done) :
    ∃ added, Accounted (past ++ history home turns) (runWith Turn.step home turns).file (entries ++ added) := by
  induction turns generalizing past home entries with
  | nil => exact ⟨[], by simpa [history] using records⟩
  | cons turn turns ih =>
    obtain ⟨first, rest⟩ := List.forall_mem_cons.mp done
    let performed : Performed platform := ⟨home.file, turn⟩
    have reads : read platform performed.before = .ok entries := records.reads
    obtain ⟨added, grown, adds⟩ := perform_adds reads first
    have next : Accounted (past ++ [⟨home.file, turn⟩]) (turn.step home).file (entries ++ added) := by
      have file : (turn.step home).file = home.file ++ entryLines added := grown
      rw [file]
      exact records.append adds
    obtain ⟨more, final⟩ := ih next rest
    refine ⟨added ++ more, ?_⟩
    rw [history, runWith_cons, ← List.append_assoc]
    simpa using final

end

end

end CommonMeasure.Allowance
