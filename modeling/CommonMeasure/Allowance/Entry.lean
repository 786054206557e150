import CommonMeasure.Foundation.Uuid
import CommonMeasure.Json.Text

namespace CommonMeasure.Allowance

open Json

inductive AllowancePeriod where
  | day | month
  deriving DecidableEq

def AllowancePeriod.asStr : AllowancePeriod → String
  | .day => "day"
  | .month => "month"

/-- What the ledger takes from outside the repository: ids and their text, JSON, upper case, the clock's text in
RFC 3339, a reservation's time to live and the calendar of a named zone. -/
structure Platform (Uuid Time : Type) where
  uuid : UuidText Uuid
  json : Reader
  toUppercase : String → String
  toUppercase_toUppercase : ∀ s, toUppercase (toUppercase s) = toUppercase s
  stamp : Time → String
  /-- `now + RESERVATION_TTL`. -/
  expiry : Time → Time
  /-- The key of the period the time falls in, where the zone has that name. -/
  zoneKey : AllowancePeriod → String → Time → Option String

section

variable {Uuid Time : Type} (platform : Platform Uuid Time)

@[ext] structure Money where
  currency : String
  micros : UInt64
  upper : platform.toUppercase currency = currency

instance : DecidableEq (Money platform) := fun a b =>
  decidable_of_iff (a.currency = b.currency ∧ a.micros = b.micros) Money.ext_iff.symm

def Money.new (currency : String) (micros : UInt64) : Money platform :=
  ⟨platform.toUppercase currency, micros, platform.toUppercase_toUppercase currency⟩

structure AllowanceDeclaration where
  period : AllowancePeriod
  amount : Money platform
  timezone : String

structure PeriodKeys where
  day : Option String
  month : Option String
  deriving DecidableEq

def PeriodKeys.get (keys : PeriodKeys) : AllowancePeriod → Option String
  | .day => keys.day
  | .month => keys.month

def PeriodKeys.insert (keys : PeriodKeys) (period : AllowancePeriod) (key : String) : PeriodKeys :=
  match period with
  | .day => { keys with day := some key }
  | .month => { keys with month := some key }

structure Reserved where
  id : Uuid
  principal : String
  amount : Money platform
  periodKeys : PeriodKeys
  at_ : String
  expiresAt : String
  pid : UInt32
  context : String

structure Committed where
  id : Uuid
  reservedId : Option Uuid
  principal : String
  amount : Money platform
  periodKeys : PeriodKeys
  at_ : String
  context : String
  note : String

structure Released (Uuid : Type) where
  id : Uuid
  reservedId : Uuid
  at_ : String
  reason : String

inductive LedgerEntry where
  | reserved (entry : Reserved platform)
  | committed (entry : Committed platform)
  | released (entry : Released Uuid)

variable {platform}

def Money.toValue (money : Money platform) : Value :=
  .object [("currency", .string money.currency), ("micros", .number (.ofNat money.micros.toNat))]

def PeriodKeys.members (keys : PeriodKeys) : List (String × Value) :=
  keys.day.toList.map (fun key => ("day", .string key)) ++ keys.month.toList.map fun key => ("month", .string key)

def uuidValue (platform : Platform Uuid Time) (id : Uuid) : Value := .string (platform.uuid.text id)

def LedgerEntry.members : LedgerEntry platform → List (String × Value)
  | .reserved entry =>
    [("entry", .string "reserved"),
      ("id", uuidValue platform entry.id),
      ("principal", .string entry.principal),
      ("amount", entry.amount.toValue),
      ("period_keys", .object entry.periodKeys.members),
      ("at", .string entry.at_),
      ("expires_at", .string entry.expiresAt),
      ("pid", .number (.ofNat entry.pid.toNat)),
      ("context", .string entry.context)]
  | .committed entry =>
    [("entry", .string "committed"), ("id", uuidValue platform entry.id)] ++
      entry.reservedId.toList.map (fun id => ("reserved_id", uuidValue platform id)) ++
      [("principal", .string entry.principal),
        ("amount", entry.amount.toValue),
        ("period_keys", .object entry.periodKeys.members),
        ("at", .string entry.at_),
        ("context", .string entry.context),
        ("note", .string entry.note)]
  | .released entry =>
    [("entry", .string "released"),
      ("id", uuidValue platform entry.id),
      ("reserved_id", uuidValue platform entry.reservedId),
      ("at", .string entry.at_),
      ("reason", .string entry.reason)]

def LedgerEntry.line (entry : LedgerEntry platform) : Bytes := write (.object entry.members)

def uuidOf (platform : Platform Uuid Time) (value : Value) : Option Uuid := value.asStr.bind platform.uuid.parse

def Money.ofValue (platform : Platform Uuid Time) : Value → Option (Money platform)
  | .object members => do
    guard (members.all fun member => member.1 = "currency" ∨ member.1 = "micros")
    let currency ← text members "currency"
    let micros ← (← field members "micros").asU64
    some (.new platform currency micros.toUInt64)
  | _ => none

def PeriodKeys.ofValue : Value → Option PeriodKeys
  | .object members => do
    guard (members.all fun member => member.2.asStr.isSome)
    some ⟨((Value.object members).get "day").asStr, ((Value.object members).get "month").asStr⟩
  | _ => none

def Reserved.ofMembers (platform : Platform Uuid Time) (members : List (String × Value)) : Option (Reserved platform) := do
  let id ← uuidOf platform (← field members "id")
  let principal ← text members "principal"
  let amount ← Money.ofValue platform (← field members "amount")
  let periodKeys ← PeriodKeys.ofValue (← field members "period_keys")
  let at_ ← text members "at"
  let expiresAt ← text members "expires_at"
  let pid ← (← field members "pid").asU64
  guard (pid < 2 ^ 32)
  let context ← text members "context"
  some { id, principal, amount, periodKeys, at_, expiresAt, pid := pid.toUInt32, context }

def Committed.ofMembers (platform : Platform Uuid Time) (members : List (String × Value)) :
    Option (Committed platform) := do
  let id ← uuidOf platform (← field members "id")
  let reservedId ← match ← Json.optional members "reserved_id" with
    | none => some none
    | some value => (uuidOf platform value).map some
  let principal ← text members "principal"
  let amount ← Money.ofValue platform (← field members "amount")
  let periodKeys ← PeriodKeys.ofValue (← field members "period_keys")
  let at_ ← text members "at"
  let context ← text members "context"
  let note ← text members "note"
  some { id, reservedId, principal, amount, periodKeys, at_, context, note }

def Released.ofMembers (platform : Platform Uuid Time) (members : List (String × Value)) : Option (Released Uuid) := do
  let id ← uuidOf platform (← field members "id")
  let reservedId ← uuidOf platform (← field members "reserved_id")
  let at_ ← text members "at"
  let reason ← text members "reason"
  some { id, reservedId, at_, reason }

def LedgerEntry.ofValue (platform : Platform Uuid Time) : Value → Option (LedgerEntry platform)
  | .object members => do
    let entry ← text members "entry"
    if entry = "reserved" then (Reserved.ofMembers platform members).map .reserved
    else if entry = "committed" then (Committed.ofMembers platform members).map .committed
    else if entry = "released" then (Released.ofMembers platform members).map .released
    else none
  | _ => none

def LedgerEntry.ofLine (platform : Platform Uuid Time) (line : Bytes) : Option (LedgerEntry platform) :=
  (platform.json.fromSlice line).bind (LedgerEntry.ofValue platform)

@[simp] theorem uuidOf_uuidValue (id : Uuid) : uuidOf platform (uuidValue platform id) = some id :=
  platform.uuid.parse_text id

@[simp] theorem Money.ofValue_toValue (money : Money platform) : Money.ofValue platform money.toValue = some money := by
  obtain ⟨currency, micros, upper⟩ := money
  have read := asU64_ofNat micros.toNat_lt
  simp [Money.ofValue, Money.toValue, text, field, Value.asStr, read, Money.new, upper, guard]

@[simp] theorem PeriodKeys.ofValue_members (keys : PeriodKeys) : PeriodKeys.ofValue (.object keys.members) = some keys := by
  obtain ⟨day, month⟩ := keys
  cases day <;> cases month <;> rfl

theorem Reserved.ofMembers_members (entry : Reserved platform) :
    Reserved.ofMembers platform (LedgerEntry.reserved entry).members = some entry := by
  have pid := asU64_ofNat (Nat.lt_trans entry.pid.toNat_lt (by decide))
  simp [Reserved.ofMembers, LedgerEntry.members, text, field, Value.asStr, pid, guard, entry.pid.toNat_lt]

theorem Committed.ofMembers_members (entry : Committed platform) :
    Committed.ofMembers platform (LedgerEntry.committed entry).members = some entry := by
  obtain ⟨id, reservedId, principal, amount, periodKeys, at_, context, note⟩ := entry
  cases reservedId with
  | none => simp [Committed.ofMembers, LedgerEntry.members, text, field, Json.optional, Value.asStr]
  | some reservedId =>
    simp [Committed.ofMembers, LedgerEntry.members, text, field, Json.optional, Value.asStr, uuidOf, uuidValue,
      platform.uuid.parse_text]

theorem Released.ofMembers_members (entry : Released Uuid) :
    Released.ofMembers platform (LedgerEntry.released entry : LedgerEntry platform).members = some entry := by
  simp [Released.ofMembers, LedgerEntry.members, text, field, Value.asStr]

theorem LedgerEntry.ofValue_members (entry : LedgerEntry platform) :
    LedgerEntry.ofValue platform (.object entry.members) = some entry := by
  unfold LedgerEntry.ofValue
  cases entry with
  | reserved entry =>
    have tag : text (LedgerEntry.reserved entry).members "entry" = some "reserved" := by
      simp [LedgerEntry.members, text, field, Value.asStr]
    simp [tag, Reserved.ofMembers_members]
  | committed entry =>
    have tag : text (LedgerEntry.committed entry).members "entry" = some "committed" := by
      cases reservedId : entry.reservedId <;> simp [LedgerEntry.members, text, field, Value.asStr, reservedId]
    simp [tag, Committed.ofMembers_members]
  | released entry =>
    have tag : text (LedgerEntry.released entry : LedgerEntry platform).members "entry" = some "released" := by
      simp [LedgerEntry.members, text, field, Value.asStr]
    simp [tag, Released.ofMembers_members]

theorem Money.toValue_holds (money : Money platform) : platform.json.Holds money.toValue := by
  apply platform.json.holds_object
  · simp
  · simp [platform.json.holds_string, platform.json.holds_number _ money.micros.toNat_lt]

theorem PeriodKeys.members_holds (keys : PeriodKeys) : platform.json.Holds (.object keys.members) := by
  obtain ⟨day, month⟩ := keys
  apply platform.json.holds_object
  · cases day <;> cases month <;> simp [PeriodKeys.members]
  · cases day <;> cases month <;> simp [PeriodKeys.members, platform.json.holds_string]

theorem LedgerEntry.members_holds (entry : LedgerEntry platform) : platform.json.Holds (.object entry.members) := by
  apply platform.json.holds_object
  · cases entry with
    | committed entry => cases reservedId : entry.reservedId <;> simp [LedgerEntry.members, reservedId]
    | _ => simp [LedgerEntry.members]
  · cases entry with
    | reserved entry =>
      have pid := platform.json.holds_number _ (Nat.lt_trans entry.pid.toNat_lt (by decide))
      simp [LedgerEntry.members, uuidValue, platform.json.holds_string, Money.toValue_holds, PeriodKeys.members_holds,
        pid]
    | committed entry =>
      cases reservedId : entry.reservedId <;>
        simp [LedgerEntry.members, uuidValue, platform.json.holds_string, Money.toValue_holds,
          PeriodKeys.members_holds, reservedId]
    | released entry => simp [LedgerEntry.members, uuidValue, platform.json.holds_string]

theorem PeriodKeys.members_depth (keys : PeriodKeys) : depthMembers keys.members = 0 := by
  obtain ⟨day, month⟩ := keys
  cases day <;> cases month <;> rfl

theorem LedgerEntry.members_depth (entry : LedgerEntry platform) :
    (Value.object entry.members).depth ≤ recursionLimit := by
  have shallow : depthMembers entry.members ≤ 1 := by
    apply depthMembers_bound
    cases entry with
    | reserved entry =>
      simp [LedgerEntry.members, uuidValue, Money.toValue, PeriodKeys.members_depth, Value.depth, depthMembers]
    | committed entry =>
      cases reservedId : entry.reservedId <;>
        simp [LedgerEntry.members, uuidValue, Money.toValue, PeriodKeys.members_depth, Value.depth, depthMembers,
          reservedId]
    | released entry => simp [LedgerEntry.members, uuidValue, Value.depth]
  rw [Value.depth, recursionLimit]
  omega

theorem LedgerEntry.members_entry (entry : LedgerEntry platform) :
    ∃ tag more, entry.members = ("entry", .string tag) :: more := by
  cases entry <;> exact ⟨_, _, rfl⟩

theorem LedgerEntry.line_free (entry : LedgerEntry platform) : LineFree entry.line := write_lineFree _

theorem LedgerEntry.ofLine_line (entry : LedgerEntry platform) : LedgerEntry.ofLine platform entry.line = some entry := by
  rw [LedgerEntry.ofLine, LedgerEntry.line, platform.json.read_write _ entry.members_holds, if_pos entry.members_depth]
  exact entry.ofValue_members

theorem LedgerEntry.ofLine_space {before : Bytes} (space : ∀ b ∈ before, isSpace b = true) (entry : LedgerEntry platform) :
    LedgerEntry.ofLine platform (before ++ entry.line) = some entry := by
  induction before with
  | nil => exact entry.ofLine_line
  | cons b before ih =>
    simp only [List.mem_cons, forall_eq_or_imp] at space
    rw [← ih space.2, LedgerEntry.ofLine, LedgerEntry.ofLine, List.cons_append, platform.json.read_space _ _ space.1]

theorem LedgerEntry.ofLine_glued {before : Bytes} (glued : ∃ b ∈ before, isSpace b = false)
    (entry : LedgerEntry platform) : LedgerEntry.ofLine platform (before ++ entry.line) = none := by
  obtain ⟨tag, more, members⟩ := entry.members_entry
  have name : LetterName "entry" := ⟨101, _, rfl, by decide, by decide⟩
  rw [LedgerEntry.ofLine, LedgerEntry.line, members, platform.json.read_glued _ _ _ _ name glued]
  rfl

end

end CommonMeasure.Allowance
