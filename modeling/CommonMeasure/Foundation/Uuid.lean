import CommonMeasure.Foundation.Text
import Mathlib

/-!
# Ids as text

What this repository relies on of a UUID's text: it reads back, and is visible ASCII, so neither a newline
nor anything `trim` removes.
-/

namespace CommonMeasure

def Visible (b : UInt8) : Prop := 33 ≤ b ∧ b < 127

structure UuidText (Uuid : Type) where
  text : Uuid → String
  parse : String → Option Uuid
  parse_text : ∀ id, parse (text id) = some id
  text_visible : ∀ id, ∀ b ∈ utf8 (text id), Visible b

theorem Visible.lineFree {bytes : Bytes} (visible : ∀ b ∈ bytes, Visible b) : LineFree bytes :=
  fun member => absurd (visible newline member).1 (by decide)

instance sixteen_ne_zero : NeZero 16 := ⟨by decide⟩

def hexDigit (digit : Fin 16) : Char := Char.ofNat (if digit < 10 then 48 + digit else 87 + digit)

def readHexDigit (c : Char) : Option (Fin 16) := (List.finRange 16).find? fun digit => hexDigit digit = c.toLower

theorem readHexDigit_hexDigit (digit : Fin 16) : readHexDigit (hexDigit digit) = some digit := by
  revert digit
  decide

theorem mapM_readHexDigit (digits : List (Fin 16)) : (digits.map hexDigit).mapM readHexDigit = some digits := by
  induction digits with
  | nil => rfl
  | cons digit digits ih => simp [readHexDigit_hexDigit, ih]

abbrev Hyphenated := { digits : List (Fin 16) // digits.length = 32 }

def groups : List Nat := [8, 4, 4, 4]

def hyphenate : List Nat → List Char → List Char
  | [], chars => chars
  | length :: lengths, chars => chars.take length ++ '-' :: hyphenate lengths (chars.drop length)

def unhyphenate : List Nat → List Char → Option (List Char)
  | [], chars => some chars
  | length :: lengths, chars =>
    if chars[length]? = some '-' then (unhyphenate lengths (chars.drop (length + 1))).map (chars.take length ++ ·)
    else none

theorem unhyphenate_hyphenate (lengths : List Nat) {chars : List Char} (long : lengths.sum ≤ chars.length) :
    unhyphenate lengths (hyphenate lengths chars) = some chars := by
  induction lengths generalizing chars with
  | nil => rfl
  | cons length lengths ih =>
    rw [List.sum_cons] at long
    have taken : (chars.take length).length = length := by simp; omega
    have rest : unhyphenate lengths (hyphenate lengths (chars.drop length)) = some (chars.drop length) :=
      ih (by simp; omega)
    rw [hyphenate, unhyphenate, if_pos (by simp [taken])]
    rw [List.take_left' taken, List.append_cons, List.drop_left' (by simp [taken]), rest]
    simp

theorem mem_hyphenate {lengths : List Nat} {chars : List Char} {c : Char} (member : c ∈ hyphenate lengths chars) :
    c = '-' ∨ c ∈ chars := by
  induction lengths generalizing chars with
  | nil => exact Or.inr member
  | cons length lengths ih =>
    rw [hyphenate, List.mem_append, List.mem_cons] at member
    rcases member with first | rfl | rest
    · exact Or.inr (List.mem_of_mem_take first)
    · exact Or.inl rfl
    · exact (ih rest).imp_right List.mem_of_mem_drop

def readUuid (text : String) : Option Hyphenated := do
  let digits ← (← unhyphenate groups text.toList).mapM readHexDigit
  if length : digits.length = 32 then some ⟨digits, length⟩ else none

theorem hyphen_visible : ∀ b ∈ String.utf8EncodeChar '-', Visible b := by
  unfold Visible
  decide +kernel

theorem hexDigit_visible (digit : Fin 16) : ∀ b ∈ String.utf8EncodeChar (hexDigit digit), Visible b := by
  unfold Visible
  revert digit
  decide +kernel

def hyphenated : UuidText Hyphenated where
  text id := String.ofList (hyphenate groups (id.val.map hexDigit))
  parse := readUuid
  parse_text := by
    rintro ⟨digits, length⟩
    have long : groups.sum ≤ (digits.map hexDigit).length := by simp [groups, length]
    have read := unhyphenate_hyphenate groups long
    rw [readUuid, String.toList_ofList, read]
    simp only [Option.bind_eq_bind, Option.bind_some, mapM_readHexDigit]
    exact dif_pos length
  text_visible id b member := by
    rw [utf8_ofList] at member
    obtain ⟨c, written, inside⟩ := List.mem_flatMap.mp member
    rcases mem_hyphenate written with rfl | written
    · exact hyphen_visible b inside
    · obtain ⟨digit, _, rfl⟩ := List.mem_map.mp written
      exact hexDigit_visible digit b inside

end CommonMeasure
