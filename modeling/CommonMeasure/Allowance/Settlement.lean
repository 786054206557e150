import CommonMeasure.Allowance.Reading
import CommonMeasure.Allowance.Sums

/-!
# A settlement that returns

`append_settlement` tries a second time whatever the first attempt left in the file.
-/

namespace CommonMeasure.Allowance

section

variable {Uuid Time : Type} {platform : Platform Uuid Time} [DecidableEq Uuid]

inductive Settlement (platform : Platform Uuid Time) where
  | reconcile (reservation : Reservation platform) (receiptMoney : Option (Money platform)) (receiptNote : String)
  | commitObserved (amount : Money platform) (note : String)

def Settlement.settle (account : Account platform) (now : Time) (context : String) (draws : Draws Uuid) :
    Settlement platform → LedgerM Unit
  | .reconcile reservation receiptMoney receiptNote => do
    let _ ← Allowance.reconcile account reservation receiptMoney now context receiptNote draws
  | .commitObserved amount note => Allowance.commitObserved account amount now context note draws

def Settlement.observed : Settlement platform → Option (Money platform)
  | .reconcile _ receiptMoney _ => receiptMoney
  | .commitObserved amount _ => some amount

def Settlement.Idle (account : Account platform) : Settlement platform → Prop
  | .reconcile _ _ _ => False
  | .commitObserved _ _ => account.declarations = []

/-- The ledger reads, and each declaration in the charge's currency has its sum for this period grown by the charge. -/
def Settled (platform : Platform Uuid Time) (account : Account platform) (now : Time) (observed : Option (Money platform))
    (before : List (LedgerEntry platform)) (after : Bytes) : Prop :=
  ∃ entries, read platform after = .ok entries ∧
    ∀ money ∈ observed, ∀ declared ∈ account.declarations, declared.amount.currency = money.currency →
      ∀ key, declared.periodKey now = .ok key →
        (spent entries account.principal declared key now).1.toNat =
          (spent before account.principal declared key now).1.toNat + money.micros.toNat

def KeyRecorded (account : Account platform) (now : Time) (declared : AllowanceDeclaration platform) (key : String) :
    Prop :=
  ∃ keys, periodKeys account.declarations now = .ok keys ∧ keys.get declared.period = some key

def AddsOnce (account : Account platform) (now : Time) (before : List (LedgerEntry platform)) (copies : Nat)
    (money : Money platform) (declared : AllowanceDeclaration platform) (key : String) : Prop :=
  let grown := (spent before account.principal declared key now).1.toNat + money.micros.toNat
  money.micros = 0 ∨
    KeyRecorded account now declared key ∧ grown ≤ maxMicros ∧ (copies = 1 ∨ grown = maxMicros)

def Lands (account : Account platform) (now : Time) (first : Attempt) (observed : Option (Money platform)) (file : Bytes)
    (before : List (LedgerEntry platform)) : Prop :=
  Ready file ∧ ∃ copies, first.copies = some copies ∧
    ∀ money ∈ observed, ∀ declared ∈ account.declarations, declared.amount.currency = money.currency →
      ∀ key, declared.periodKey now = .ok key → AddsOnce account now before copies money declared key

/-! ### What a settlement appends -/

def Records (account : Account platform) (now : Time) (entry : LedgerEntry platform) : Option (Money platform) → Prop
  | some money => ∃ committed, entry = .committed committed ∧ committed.principal = account.principal ∧
      committed.amount = money ∧ periodKeys account.declarations now = .ok committed.periodKeys
  | none => ∃ released, entry = .released released

section

variable {account : Account platform} {now : Time} {context : String} {draws : Draws Uuid}
  {settlement : Settlement platform} {file after : Bytes} {before : List (LedgerEntry platform)}

theorem settle_appends (busy : ¬settlement.Idle account) (reads : read platform file = .ok before)
    (done : (settlement.settle account now context draws).on file = (.ok (), after)) :
    ∃ releases entry, (∀ entry ∈ releases, ExpiryRelease before now entry) ∧
      (appendSettlement entry draws.first draws.second).on (file ++ entryLines releases) = (.ok (), after) ∧
      Records account now entry settlement.observed := by
  cases settlement with
  | reconcile reservation receiptMoney receiptNote =>
    obtain ⟨_, _, settled, rest⟩ := bind_ok.mp done
    obtain ⟨_, rfl⟩ := pure_ok rest
    obtain ⟨_, _, sweep, recorded⟩ := bind_ok.mp settled
    obtain ⟨_, releases, read, rfl, rfl, each⟩ := sweepExpired_ok sweep
    obtain rfl := Except.ok.inj (read.symm.trans reads)
    cases receiptMoney with
    | some money =>
      obtain ⟨keys, _, found, recorded⟩ := bind_ok.mp recorded
      obtain ⟨keysAre, rfl⟩ := lift_ok found
      obtain ⟨_, _, appended, rest⟩ := bind_ok.mp recorded
      obtain ⟨_, rfl⟩ := pure_ok rest
      exact ⟨releases, _, each, appended, _, rfl, rfl, rfl, keysAre⟩
    | none =>
      obtain ⟨_, _, appended, rest⟩ := bind_ok.mp recorded
      obtain ⟨_, rfl⟩ := pure_ok rest
      exact ⟨releases, _, each, appended, _, rfl⟩
  | commitObserved amount note =>
    have declared : account.declarations.isEmpty = false := by simpa [Settlement.Idle] using busy
    unfold Settlement.settle commitObserved at done
    simp only [declared, Bool.false_eq_true, if_false] at done
    obtain ⟨_, _, sweep, recorded⟩ := bind_ok.mp done
    obtain ⟨_, releases, read, rfl, rfl, each⟩ := sweepExpired_ok sweep
    obtain rfl := Except.ok.inj (read.symm.trans reads)
    obtain ⟨keys, _, found, appended⟩ := bind_ok.mp recorded
    obtain ⟨keysAre, rfl⟩ := lift_ok found
    exact ⟨releases, _, each, appended, _, rfl, rfl, rfl, keysAre⟩

theorem settle_idle (idle : settlement.Idle account)
    (done : (settlement.settle account now context draws).on file = (.ok (), after)) : after = file := by
  cases settlement with
  | reconcile reservation receiptMoney receiptNote => exact idle.elim
  | commitObserved amount note =>
    have undeclared : account.declarations.isEmpty = true := List.isEmpty_iff.mpr idle
    unfold Settlement.settle commitObserved at done
    simp only [undeclared, if_true] at done
    exact (pure_ok done).2.symm

omit [DecidableEq Uuid] in
theorem committedSum_append (entries more : List (LedgerEntry platform)) (principal : String)
    (declared : AllowanceDeclaration platform) (key : String) :
    committedSum (entries ++ more) principal declared key =
      committedSum entries principal declared key + committedSum more principal declared key := by
  simp [committedSum]

theorem committedSum_releases {releases : List (LedgerEntry platform)}
    (each : ∀ entry ∈ releases, ExpiryRelease before now entry) (principal : String)
    (declared : AllowanceDeclaration platform) (key : String) : committedSum releases principal declared key = 0 := by
  apply List.sum_eq_zero
  intro micros member
  obtain ⟨entry, listed, rfl⟩ := List.mem_map.mp member
  obtain ⟨released, _, rfl, _⟩ := each entry listed
  rfl

omit [DecidableEq Uuid] in
theorem committedMicros_records {entry : LedgerEntry platform} {money : Money platform}
    (records : Records account now entry (some money)) {declared : AllowanceDeclaration platform}
    (currency : declared.amount.currency = money.currency) {key : String} :
    (KeyRecorded account now declared key ∧
        committedMicros account.principal declared key entry = money.micros.toNat) ∨
      ¬KeyRecorded account now declared key ∧ committedMicros account.principal declared key entry = 0 := by
  obtain ⟨committed, rfl, principal, rfl, found⟩ := records
  by_cases recorded : committed.periodKeys.get declared.period = some key
  · left
    refine ⟨⟨_, found, recorded⟩, if_pos ?_⟩
    simp [counts, principal, currency, recorded]
  · right
    refine ⟨?_, if_neg ?_⟩
    · rintro ⟨keys, same, get⟩
      obtain rfl := Except.ok.inj (found.symm.trans same)
      exact recorded get
    · simp [counts, recorded]

theorem grows_once_iff {entry : LedgerEntry platform} {money : Money platform}
    (records : Records account now entry (some money)) {declared : AllowanceDeclaration platform}
    (currency : declared.amount.currency = money.currency) {key : String} {releases : List (LedgerEntry platform)}
    (each : ∀ entry ∈ releases, ExpiryRelease before now entry) {copies : Nat} (oneOrTwo : copies = 1 ∨ copies = 2) :
    (spent (before ++ releases ++ List.replicate copies entry) account.principal declared key now).1.toNat =
        (spent before account.principal declared key now).1.toNat + money.micros.toNat ↔
      AddsOnce account now before copies money declared key := by
  have copied : committedSum (List.replicate copies entry) account.principal declared key =
      copies * committedMicros account.principal declared key entry := by
    simp [committedSum]
  have zero : money.micros = 0 ↔ money.micros.toNat = 0 := by
    rw [← UInt64.toNat_inj]
    rfl
  unfold AddsOnce
  dsimp only
  rw [spent_committed, spent_committed, committedSum_append, committedSum_append, committedSum_releases each, copied, zero]
  unfold maxMicros
  rcases committedMicros_records records currency with ⟨recorded, micros⟩ | ⟨unrecorded, micros⟩
  · rw [micros]
    simp only [recorded, true_and]
    rcases oneOrTwo with rfl | rfl <;> omega
  · rw [micros]
    simp only [unrecorded, false_and, or_false]
    omega

section

variable {releases : List (LedgerEntry platform)} {entry : LedgerEntry platform} {second : Attempt} {first : Attempt}
  {observed : Option (Money platform)} (each : ∀ entry ∈ releases, ExpiryRelease before now entry)
  (appended : (appendSettlement entry first second).on (file ++ entryLines releases) = (.ok (), after))

include each appended in
theorem settled_iff_lands (reads : read platform file = .ok before) (ready : Ready file)
    (records : Records account now entry observed) :
    Settled platform account now observed before after ↔ Lands account now first observed file before := by
  obtain ⟨readyNow, readsNow⟩ := ready.read_entryLines reads releases
  cases copied : first.copies with
  | none =>
    have torn := settled_torn appended copied
    constructor
    · rintro ⟨entries, readsAfter, _⟩
      exact absurd readsAfter torn.refused
    · rintro ⟨_, copies, counted, _⟩
      rw [copied] at counted
      cases counted
  | some copies =>
    have readsAfter := settled_read appended readyNow readsNow copied
    have oneOrTwo := Attempt.copies_cases copied
    constructor
    · rintro ⟨entries, readsEntries, grown⟩
      obtain rfl := Except.ok.inj (readsAfter.symm.trans readsEntries)
      refine ⟨ready, copies, copied, ?_⟩
      intro money charged declared listed currency key found
      have recorded : Records account now entry (some money) := charged ▸ records
      exact (grows_once_iff recorded currency each oneOrTwo).mp (grown money charged declared listed currency key found)
    · rintro ⟨_, _, counted, adds⟩
      obtain rfl := Option.some.inj (copied.symm.trans counted)
      refine ⟨_, readsAfter, ?_⟩
      intro money charged declared listed currency key found
      have recorded : Records account now entry (some money) := charged ▸ records
      exact (grows_once_iff recorded currency each oneOrTwo).mpr (adds money charged declared listed currency key found)

omit [DecidableEq Uuid] in
include appended in
theorem spoiled_of_unready (unready : ¬Ready file) : Spoiled platform after := by
  by_cases none : releases = []
  · subst none
    have unchanged : file ++ entryLines ([] : List (LedgerEntry platform)) = file := List.append_nil file
    rw [unchanged] at appended
    exact settled_unready appended unready
  · exact settled_spoiled appended (spoiled_entryLines unready none)

end

/-- A settlement that returns is in the ledger once, and the ledger reads, exactly where it lands. -/
theorem settle_exact (reads : read platform file = .ok before)
    (done : (settlement.settle account now context draws).on file = (.ok (), after)) :
    Settled platform account now settlement.observed before after ↔
      settlement.Idle account ∨ Lands account now draws.first settlement.observed file before := by
  by_cases idle : settlement.Idle account
  · have same := settle_idle idle done
    subst same
    have undeclared : account.declarations = [] := by
      cases settlement with
      | reconcile reservation receiptMoney receiptNote => exact idle.elim
      | commitObserved amount note => exact idle
    constructor
    · exact fun _ => Or.inl idle
    · intro _
      refine ⟨before, reads, ?_⟩
      rw [undeclared]
      simp
  · obtain ⟨releases, entry, each, appended, records⟩ := settle_appends idle reads done
    rw [or_iff_right idle]
    by_cases ready : Ready file
    · exact settled_iff_lands each appended reads ready records
    · have spoiled := spoiled_of_unready appended ready
      constructor
      · rintro ⟨entries, readsAfter, _⟩
        exact absurd readsAfter spoiled.refused
      · rintro ⟨now, _⟩
        exact absurd now ready

end

end

def receipt : Settlement utc := .reconcile ⟨digit 1, usd 7000⟩ (some (usd 7000)) "observed"

def settledFrom (first : Attempt) : Except Fault Unit × Bytes :=
  (receipt.settle (daily 20000) nine "test" (drawn 2 first)).on []

theorem settle_exact_retried : Settled utc (daily 20000) nine (some (usd 7000)) [] (settledFrom .nothing).2 := by
  have done : (receipt.settle (daily 20000) nine "test" (drawn 2 .nothing)).on [] = (.ok (), (settledFrom .nothing).2) :=
    Prod.ext (by decide) rfl
  have lands : Lands (daily 20000) nine .nothing (some (usd 7000)) [] [] := by
    refine ⟨by decide +kernel, 1, rfl, ?_⟩
    rintro money charged declared listed _ key found
    obtain rfl := Option.some.inj charged
    obtain rfl := List.mem_singleton.mp listed
    obtain rfl := Except.ok.inj found
    exact Or.inr ⟨⟨_, rfl, rfl⟩, by decide, Or.inl rfl⟩
  exact (settle_exact rfl done).mpr (Or.inr lands)

/-- A first attempt that writes part of its line leaves a line that is no entry; one that fails to sync counts the
charge twice. -/
theorem settle_again :
    ((settledFrom (.part 9)).1 = .ok () ∧
      ¬Settled utc (daily 20000) nine (some (usd 7000)) [] (settledFrom (.part 9)).2) ∧
    ((settledFrom .unsynced).1 = .ok () ∧
      ¬Settled utc (daily 20000) nine (some (usd 7000)) [] (settledFrom .unsynced).2) := by
  refine ⟨⟨by decide, ?_⟩, by decide, ?_⟩
  · rintro ⟨entries, reads, _⟩
    have refused : (read utc (settledFrom (.part 9)).2).toBool = false := by decide +kernel
    rw [reads] at refused
    cases refused
  · rintro ⟨entries, reads, grown⟩
    have twice : ((read utc (settledFrom .unsynced).2).map fun entries =>
        (spent entries "os-user:1000" ⟨.day, usd 20000, "UTC"⟩ "2026-08-22" nine).1.toNat) = .ok 14000 := by
      decide +kernel
    have once := grown (usd 7000) rfl _ List.mem_cons_self rfl "2026-08-22" (by decide)
    rw [reads] at twice
    have sum : (spent entries "os-user:1000" ⟨.day, usd 20000, "UTC"⟩ "2026-08-22" nine).1.toNat = 14000 :=
      Except.ok.inj twice
    exact absurd (sum.symm.trans once) (by decide)

end CommonMeasure.Allowance
