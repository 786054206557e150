import CommonMeasure.Allowance.Ledger
import CommonMeasure.Json.Compact

/-!
# What a period holds

The two sums of `spent` are sums over the entries, cut off at what 64 bits hold.
-/

namespace CommonMeasure.Allowance

section

variable {Uuid Time : Type} {platform : Platform Uuid Time} [DecidableEq Uuid]

def maxMicros : Nat := 2 ^ 64 - 1

def committedMicros (principal : String) (declared : AllowanceDeclaration platform) (key : String) :
    LedgerEntry platform → Nat
  | .committed entry =>
    if counts principal declared key entry.principal entry.amount entry.periodKeys then entry.amount.micros.toNat else 0
  | _ => 0

def reservedMicros (resolved : List Uuid) (principal : String) (declared : AllowanceDeclaration platform) (key : String)
    (now : Time) : LedgerEntry platform → Nat
  | .reserved entry =>
    if counts principal declared key entry.principal entry.amount entry.periodKeys ∧ live resolved now entry then
      entry.amount.micros.toNat
    else 0
  | _ => 0

def committedSum (entries : List (LedgerEntry platform)) (principal : String)
    (declared : AllowanceDeclaration platform) (key : String) : Nat :=
  (entries.map (committedMicros principal declared key)).sum

def reservedSum (resolved : List Uuid) (entries : List (LedgerEntry platform)) (principal : String)
    (declared : AllowanceDeclaration platform) (key : String) (now : Time) : Nat :=
  (entries.map (reservedMicros resolved principal declared key now)).sum

variable (principal : String) (declared : AllowanceDeclaration platform) (key : String) (now : Time)

theorem addEntry_toNat (resolved : List Uuid) (sums : UInt64 × UInt64) (entry : LedgerEntry platform) :
    (addEntry resolved principal declared key now sums entry).1.toNat =
        min (sums.1.toNat + committedMicros principal declared key entry) maxMicros ∧
      (addEntry resolved principal declared key now sums entry).2.toNat =
        min (sums.2.toNat + reservedMicros resolved principal declared key now entry) maxMicros := by
  have first := sums.1.toNat_lt
  have second := sums.2.toNat_lt
  unfold addEntry committedMicros reservedMicros maxMicros
  cases entry with
  | committed entry =>
    dsimp only
    split
    · exact ⟨toNat_saturatingAdd _ _, by simp only; omega⟩
    · exact ⟨by omega, by omega⟩
  | reserved entry =>
    dsimp only
    split
    · exact ⟨by simp only; omega, toNat_saturatingAdd _ _⟩
    · exact ⟨by omega, by omega⟩
  | released entry => exact ⟨by simp only; omega, by simp only; omega⟩

theorem foldl_addEntry_toNat (resolved : List Uuid) (entries : List (LedgerEntry platform)) (sums : UInt64 × UInt64) :
    (entries.foldl (addEntry resolved principal declared key now) sums).1.toNat =
        min (sums.1.toNat + committedSum entries principal declared key) maxMicros ∧
      (entries.foldl (addEntry resolved principal declared key now) sums).2.toNat =
        min (sums.2.toNat + reservedSum resolved entries principal declared key now) maxMicros := by
  induction entries generalizing sums with
  | nil =>
    have first := sums.1.toNat_lt
    have second := sums.2.toNat_lt
    simp only [List.foldl_nil, committedSum, reservedSum, List.map_nil, List.sum_nil, maxMicros]
    omega
  | cons entry entries ih =>
    obtain ⟨first, second⟩ := addEntry_toNat principal declared key now resolved sums entry
    obtain ⟨committed, reserved⟩ := ih (addEntry resolved principal declared key now sums entry)
    rw [List.foldl_cons, committed, reserved, first, second]
    simp only [committedSum, reservedSum, List.map_cons, List.sum_cons]
    omega

theorem spent_committed (entries : List (LedgerEntry platform)) :
    (spent entries principal declared key now).1.toNat = min (committedSum entries principal declared key) maxMicros := by
  have sums := (foldl_addEntry_toNat principal declared key now (resolvedIds entries) entries (0, 0)).1
  rwa [UInt64.toNat_zero, Nat.zero_add] at sums

theorem spent_reserved (entries : List (LedgerEntry platform)) :
    (spent entries principal declared key now).2.toNat =
      min (reservedSum (resolvedIds entries) entries principal declared key now) maxMicros := by
  have sums := (foldl_addEntry_toNat principal declared key now (resolvedIds entries) entries (0, 0)).2
  rwa [UInt64.toNat_zero, Nat.zero_add] at sums

end

structure Date where
  year : Nat
  month : Nat
  day : Nat

def Date.ofDays (days : Nat) : Date :=
  let shifted := days + 719468
  let ofEra := shifted % 146097
  let yearOfEra := (ofEra - ofEra / 1460 + ofEra / 36524 - ofEra / 146096) / 365
  let ofYear := ofEra - (365 * yearOfEra + yearOfEra / 4 - yearOfEra / 100)
  let shiftedMonth := (5 * ofYear + 2) / 153
  let month := if shiftedMonth < 10 then shiftedMonth + 3 else shiftedMonth - 9
  { year := shifted / 146097 * 400 + yearOfEra + if month ≤ 2 then 1 else 0
    month
    day := ofYear - (153 * shiftedMonth + 2) / 5 + 1 }

def padded (width n : Nat) : String :=
  let digits := toString n
  String.ofList (List.replicate (width - digits.length) '0') ++ digits

def Date.yearText (date : Date) : String := if date.year ≤ 9999 then padded 4 date.year else "+" ++ toString date.year

def Date.monthText (date : Date) : String := date.yearText ++ "-" ++ padded 2 date.month

def Date.text (date : Date) : String := date.monthText ++ "-" ++ padded 2 date.day

def stampUtc (now : Nat) : String :=
  (Date.ofDays (now / 86400)).text ++ "T" ++ padded 2 (now % 86400 / 3600) ++ ":" ++ padded 2 (now % 3600 / 60) ++ ":" ++
    padded 2 (now % 60) ++ "Z"

example : stampUtc 1787389200 = "2026-08-22T09:00:00Z" := by decide +kernel

theorem toUpper_toUpper (c : Char) : c.toUpper.toUpper = c.toUpper := by
  by_cases lower : 'a'.val ≤ c.val ∧ c.val ≤ 'z'.val
  · have once : c.toUpper.val = c.val + ('A'.val - 'a'.val) := by
      rw [Char.toUpper, dif_pos lower]
    have upper : ¬('a'.val ≤ c.toUpper.val ∧ c.toUpper.val ≤ 'z'.val) := by
      have above := UInt32.le_iff_toNat_le.mp lower.1
      have below := UInt32.le_iff_toNat_le.mp lower.2
      simp only [show 'a'.val.toNat = 97 from rfl, show 'z'.val.toNat = 122 from rfl] at above below
      rw [once, UInt32.le_iff_toNat_le, UInt32.toNat_add]
      simp only [show 'a'.val.toNat = 97 from rfl, show ('A'.val - 'a'.val).toNat = 4294967264 from rfl]
      omega
    exact dif_neg upper
  · have same : c.toUpper = c := dif_neg lower
    rw [same, same]

def RESERVATION_TTL : Nat := 600

def utc : Platform Hyphenated Nat where
  uuid := hyphenated
  json := Json.compactReader
  toUppercase s := String.ofList (s.toList.map Char.toUpper)
  toUppercase_toUppercase s := by simp [Function.comp_def, toUpper_toUpper]
  stamp := stampUtc
  expiry now := now + RESERVATION_TTL
  zoneKey period timezone now :=
    if timezone = "UTC" then
      match period with
      | .day => some (Date.ofDays (now / 86400)).text
      | .month => some (Date.ofDays (now / 86400)).monthText
    else none

def nine : Nat := 1787389200

def usd (micros : UInt64) : Money utc := .new utc "USD" micros

def daily (micros : UInt64) : Account utc := ⟨"os-user:1000", [⟨.day, usd micros, "UTC"⟩]⟩

def digit (digit : Fin 16) : Hyphenated := ⟨List.replicate 32 digit, List.length_replicate⟩

def drawn (id : Fin 16) (first : Attempt) : Draws Hyphenated := ⟨fun _ => (digit id, .done), digit id, 1, first, .done⟩

end CommonMeasure.Allowance
