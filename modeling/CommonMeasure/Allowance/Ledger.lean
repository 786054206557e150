import CommonMeasure.Allowance.Entry

namespace CommonMeasure.Allowance

open Json

/-- `u64::saturating_add`. -/
def saturatingAdd (a b : UInt64) : UInt64 := UInt64.ofNat (min (a.toNat + b.toNat) (2 ^ 64 - 1))

/-- `u64::saturating_sub`. -/
def saturatingSub (a b : UInt64) : UInt64 := UInt64.ofNat (a.toNat - b.toNat)

@[simp] theorem toNat_saturatingAdd (a b : UInt64) :
    (saturatingAdd a b).toNat = min (a.toNat + b.toNat) (2 ^ 64 - 1) := by
  rw [saturatingAdd, UInt64.toNat_ofNat']
  omega

/-- Why an operation is refused: a line that is no entry, a zone of no known name, an append, or an append and
its retry. -/
inductive Fault where
  | notEntry (line : Nat)
  | zone (timezone : String)
  | append
  | settlement
  deriving DecidableEq

/-- An operation on the ledger's file. A file that is absent is taken as an empty one, as `read` takes it. -/
abbrev LedgerM := ExceptT Fault (StateM Bytes)

def LedgerM.on {α : Type} (operation : LedgerM α) (file : Bytes) : Except Fault α × Bytes := operation.run.run file

inductive Attempt where
  | done
  | nothing
  /-- It wrote some of the line and not its newline. -/
  | part (length : Nat)
  /-- It wrote the line and failed to sync it. -/
  | unsynced
  deriving DecidableEq

def Attempt.written (line : Bytes) : Attempt → Bytes
  | .done | .unsynced => line ++ [newline]
  | .nothing => []
  | .part length => line.take (length + 1)

section

variable {Uuid Time : Type} {platform : Platform Uuid Time}

def readLines (platform : Platform Uuid Time) (number : Nat) : List Bytes → Except Fault (List (LedgerEntry platform))
  | [] => .ok []
  | line :: more =>
    if blank line then readLines platform (number + 1) more
    else match LedgerEntry.ofLine platform line with
      | none => .error (.notEntry number)
      | some entry => (readLines platform (number + 1) more).map (entry :: ·)

def read (platform : Platform Uuid Time) (file : Bytes) : Except Fault (List (LedgerEntry platform)) :=
  readLines platform 1 (textLines file)

def append (entry : LedgerEntry platform) (attempt : Attempt) : LedgerM Unit :=
  ExceptT.mk fun file =>
    (if attempt = .done then .ok () else .error .append, file ++ attempt.written entry.line)

def appendSettlement (entry : LedgerEntry platform) (first second : Attempt) : LedgerM Unit :=
  tryCatch (append entry first) fun _ =>
    tryCatch (append entry second) fun _ => throw .settlement

def AllowanceDeclaration.periodKey (declared : AllowanceDeclaration platform) (now : Time) : Except Fault String :=
  match platform.zoneKey declared.period declared.timezone now with
  | some key => .ok key
  | none => .error (.zone declared.timezone)

def periodKeys (declarations : List (AllowanceDeclaration platform)) (now : Time) : Except Fault PeriodKeys :=
  declarations.foldlM (fun keys declared => (declared.periodKey now).map (keys.insert declared.period)) ⟨none, none⟩

def resolvedIds (entries : List (LedgerEntry platform)) : List Uuid :=
  entries.filterMap fun
    | .committed entry => entry.reservedId
    | .released entry => some entry.reservedId
    | .reserved _ => none

section

variable [DecidableEq Uuid]

def counts (principal : String) (declared : AllowanceDeclaration platform) (key : String) (entryPrincipal : String)
    (amount : Money platform) (keys : PeriodKeys) : Bool :=
  entryPrincipal = principal ∧ amount.currency = declared.amount.currency ∧ keys.get declared.period = some key

def live (resolved : List Uuid) (now : Time) (entry : Reserved platform) : Bool :=
  entry.id ∉ resolved ∧ platform.stamp now < entry.expiresAt

def addEntry (resolved : List Uuid) (principal : String) (declared : AllowanceDeclaration platform) (key : String)
    (now : Time) (sums : UInt64 × UInt64) : LedgerEntry platform → UInt64 × UInt64
  | .committed entry =>
    if counts principal declared key entry.principal entry.amount entry.periodKeys then
      (saturatingAdd sums.1 entry.amount.micros, sums.2)
    else sums
  | .reserved entry =>
    if counts principal declared key entry.principal entry.amount entry.periodKeys ∧ live resolved now entry then
      (sums.1, saturatingAdd sums.2 entry.amount.micros)
    else sums
  | .released _ => sums

def spent (entries : List (LedgerEntry platform)) (principal : String) (declared : AllowanceDeclaration platform)
    (key : String) (now : Time) : UInt64 × UInt64 :=
  entries.foldl (addEntry (resolvedIds entries) principal declared key now) (0, 0)

structure Account (platform : Platform Uuid Time) where
  principal : String
  declarations : List (AllowanceDeclaration platform)

structure PeriodCheck (platform : Platform Uuid Time) where
  period : AllowancePeriod
  periodKey : String
  declared : Money platform
  spentBefore : Money platform
  comparable : Bool
  wouldExceed : Bool

def checkFor (entries : List (LedgerEntry platform)) (principal : String) (charge : Option (Money platform)) (now : Time)
    (declared : AllowanceDeclaration platform) : Except Fault (PeriodCheck platform) := do
  let key ← declared.periodKey now
  let (committed, reserved) := spent entries principal declared key now
  let held := saturatingAdd committed reserved
  let comparable := charge.any fun money => money.currency = declared.amount.currency
  pure {
    period := declared.period
    periodKey := key
    declared := declared.amount
    spentBefore := .new platform declared.amount.currency held
    comparable
    wouldExceed := comparable ∧ charge.any fun money => declared.amount.micros < saturatingAdd held money.micros }

def checksFor (entries : List (LedgerEntry platform)) (account : Account platform) (charge : Option (Money platform))
    (now : Time) : Except Fault (List (PeriodCheck platform)) :=
  account.declarations.mapM (checkFor entries account.principal charge now)

structure Draws (Uuid : Type) where
  /-- For each release of an expired reservation. -/
  sweep : Nat → Uuid × Attempt
  id : Uuid
  pid : UInt32
  first : Attempt
  second : Attempt

def expired (entries : List (LedgerEntry platform)) (now : Time) : List (Reserved platform) :=
  entries.filterMap fun
    | .reserved entry =>
      if entry.id ∉ resolvedIds entries ∧ entry.expiresAt ≤ platform.stamp now then some entry else none
    | _ => none

def expiryRelease (id : Uuid) (now : Time) (entry : Reserved platform) : LedgerEntry platform :=
  .released {
    id
    reservedId := entry.id
    at_ := platform.stamp now
    reason := "released by rule: the reservation expired at " ++ entry.expiresAt ++
      " without a receipt or a release, so its buyer is taken to have died before settling" }

def releaseEach (now : Time) (sweep : Nat → Uuid × Attempt) :
    Nat → List (Reserved platform) → List (LedgerEntry platform) → LedgerM (List (LedgerEntry platform))
  | _, [], entries => pure entries
  | drawn, entry :: more, entries => do
    let release := expiryRelease (sweep drawn).1 now entry
    append release (sweep drawn).2
    releaseEach now sweep (drawn + 1) more (entries ++ [release])

def sweepExpired (platform : Platform Uuid Time) (now : Time) (sweep : Nat → Uuid × Attempt) :
    LedgerM (List (LedgerEntry platform)) := do
  let entries ← read platform (← get)
  releaseEach now sweep 0 (expired entries now) entries

structure Reservation (platform : Platform Uuid Time) where
  id : Uuid
  amount : Money platform

inductive ReserveOutcome (platform : Platform Uuid Time) where
  | nothingDeclared
  | reserved (reservation : Reservation platform) (checks : List (PeriodCheck platform))
  | reservedWithBreach (reservation : Reservation platform) (checks : List (PeriodCheck platform))
  | declined (checks : List (PeriodCheck platform))

def reserve (account : Account platform) (amount : Money platform) (now : Time) (context : String) (allowBreach : Bool)
    (draws : Draws Uuid) : LedgerM (ReserveOutcome platform) := do
  if account.declarations.isEmpty then
    pure .nothingDeclared
  else
    let entries ← sweepExpired platform now draws.sweep
    let checks ← checksFor entries account (some amount) now
    let fits := checks.all fun check => check.comparable && !check.wouldExceed
    if !fits && !allowBreach then
      pure (.declined checks)
    else
      let keys ← periodKeys account.declarations now
      append (.reserved {
        id := draws.id
        principal := account.principal
        amount
        periodKeys := keys
        at_ := platform.stamp now
        expiresAt := platform.stamp (platform.expiry now)
        pid := draws.pid
        context }) draws.first
      pure (if fits then .reserved ⟨draws.id, amount⟩ checks else .reservedWithBreach ⟨draws.id, amount⟩ checks)

def Money.asDecimalString (money : Money platform) : String :=
  let fraction := toString (money.micros.toNat % 1000000)
  toString (money.micros.toNat / 1000000) ++ "." ++ String.ofList (List.replicate (6 - fraction.length) '0') ++ fraction

def settlementNote (reservation : Reservation platform) (observed : Money platform) (receiptNote : String) : String :=
  if observed = reservation.amount then "receipt matches the quote: " ++ receiptNote
  else
    "receipt differs from the quote (" ++ reservation.amount.asDecimalString ++ " " ++ reservation.amount.currency ++
      " quoted, " ++ observed.asDecimalString ++ " " ++ observed.currency ++ " charged): " ++ receiptNote

def reconcile (account : Account platform) (reservation : Reservation platform) (receiptMoney : Option (Money platform))
    (now : Time) (context receiptNote : String) (draws : Draws Uuid) : LedgerM String := do
  let _ ← sweepExpired platform now draws.sweep
  match receiptMoney with
  | some observed =>
    let note := settlementNote reservation observed receiptNote
    let keys ← periodKeys account.declarations now
    appendSettlement (.committed {
      id := draws.id
      reservedId := some reservation.id
      principal := account.principal
      amount := observed
      periodKeys := keys
      at_ := platform.stamp now
      context
      note }) draws.first draws.second
    pure note
  | none =>
    let reason := "released on the receipt: no charge in currency was reported, so nothing is counted against a " ++
      "monetary allowance (" ++ receiptNote ++ ")"
    let entry : LedgerEntry platform := .released {
      id := draws.id
      reservedId := reservation.id
      at_ := platform.stamp now
      reason }
    appendSettlement entry draws.first draws.second
    pure reason

def release (reservation : Reservation platform) (now : Time) (reason : String) (draws : Draws Uuid) : LedgerM Unit :=
  let entry : LedgerEntry platform := .released {
    id := draws.id
    reservedId := reservation.id
    at_ := platform.stamp now
    reason }
  append entry draws.first

def commitObserved (account : Account platform) (amount : Money platform) (now : Time) (context note : String)
    (draws : Draws Uuid) : LedgerM Unit := do
  if account.declarations.isEmpty then
    pure ()
  else
    let _ ← sweepExpired platform now draws.sweep
    let keys ← periodKeys account.declarations now
    appendSettlement (.committed {
      id := draws.id
      reservedId := none
      principal := account.principal
      amount
      periodKeys := keys
      at_ := platform.stamp now
      context
      note }) draws.first draws.second

structure PeriodState (platform : Platform Uuid Time) where
  period : AllowancePeriod
  periodKey : String
  declared : Money platform
  committed : Money platform
  reserved : Money platform
  remaining : Money platform
  exceeded : Bool

def standing (entries : List (LedgerEntry platform)) (principal : String) (now : Time)
    (declared : AllowanceDeclaration platform) : Except Fault (PeriodState platform) := do
  let key ← declared.periodKey now
  let (committed, reserved) := spent entries principal declared key now
  let held := saturatingAdd committed reserved
  pure {
    period := declared.period
    periodKey := key
    declared := declared.amount
    committed := .new platform declared.amount.currency committed
    reserved := .new platform declared.amount.currency reserved
    remaining := .new platform declared.amount.currency (saturatingSub declared.amount.micros held)
    exceeded := declared.amount.micros < held }

def state (account : Account platform) (now : Time) (draws : Draws Uuid) : LedgerM (List (PeriodState platform)) := do
  let entries ← sweepExpired platform now draws.sweep
  liftM (account.declarations.mapM (standing entries account.principal now))

end

end

end CommonMeasure.Allowance
