import CommonMeasure.Foundation.Lines
import Mathlib.Data.List.Nodup

/-!
# Text files

A text as its reader takes it: its lines, an unterminated end among them, and which of them are blank.
-/

namespace CommonMeasure

def utf8 (s : String) : Bytes := s.toByteArray.data.toList

/-- `str::from_utf8`. -/
def fromUtf8 (bytes : Bytes) : Option String := String.fromUTF8? ⟨bytes.toArray⟩

@[simp] theorem fromUtf8_utf8 (s : String) : fromUtf8 (utf8 s) = some s := by
  rw [fromUtf8, utf8, Array.toArray_toList, String.fromUTF8?]
  exact dif_pos s.isValidUTF8

theorem utf8_ofList (chars : List Char) : utf8 (String.ofList chars) = chars.flatMap String.utf8EncodeChar := by
  simp [utf8, List.utf8Encode]

def spelled (bytes : Bytes) : String := String.ofList (bytes.map Char.ofUInt8)

theorem spelled_injective : Function.Injective spelled := by
  intro a b same
  have chars : a.map Char.ofUInt8 = b.map Char.ofUInt8 := String.ofList_injective same
  apply List.map_injective_iff.mpr _ chars
  intro x y same
  have values : x.toUInt32 = y.toUInt32 := congrArg Char.val same
  have numbers : x.toNat = y.toNat := by simpa using congrArg UInt32.toNat values
  exact UInt8.toNat_inj.mp numbers

def patched {α β : Type} [DecidableEq α] (table : List (α × β)) (f : α → β) (x : α) : β :=
  match table.find? (·.1 = x) with
  | some entry => entry.2
  | none => f x

theorem patched_injective {α β : Type} [DecidableEq α] {table : List (α × β)} {f : α → β} (injective : Function.Injective f)
    (values : (table.map Prod.snd).Nodup) (apart : ∀ value ∈ table.map Prod.snd, ∀ x, f x ≠ value) :
    Function.Injective (patched table f) := by
  intro a b same
  have found {x : α} {entry : α × β} (is : table.find? (·.1 = x) = some entry) : entry ∈ table ∧ entry.1 = x :=
    ⟨List.mem_of_find?_eq_some is, by simpa using List.find?_some is⟩
  unfold patched at same
  cases first : table.find? (·.1 = a) with
  | some entry =>
    rw [first] at same
    cases second : table.find? (·.1 = b) with
    | some other =>
      rw [second] at same
      have one := List.inj_on_of_nodup_map values (found first).1 (found second).1 same
      rw [← (found first).2, ← (found second).2, one]
    | none =>
      rw [second] at same
      exact absurd same.symm (apart _ (List.mem_map_of_mem (found first).1) b)
  | none =>
    rw [first] at same
    cases second : table.find? (·.1 = b) with
    | some other =>
      rw [second] at same
      exact absurd same (apart _ (List.mem_map_of_mem (found second).1) a)
    | none =>
      rw [second] at same
      exact injective same

def marked (bytes : Bytes) : String := "of " ++ spelled bytes

theorem marked_injective : Function.Injective marked := by
  intro a b same
  exact spelled_injective (by simpa [marked] using same)

theorem marked_ne {value : String} (head : value.toList.head? ≠ some 'o') (bytes : Bytes) : marked bytes ≠ value := by
  rintro rfl
  apply head
  rw [marked, String.toList_append]
  rfl

def carriageReturn : UInt8 := 13

def stripReturn (line : Bytes) : Bytes := if line.getLast? = some carriageReturn then line.dropLast else line

/-- `str::lines`: an unterminated end of the text is a line, unless it is empty. -/
def textLines (text : Bytes) : List Bytes :=
  (splitLines text).1.map stripReturn ++ if (splitLines text).2 = [] then [] else [(splitLines text).2]

def isWhite (b : UInt8) : Bool := b = 32 ∨ 9 ≤ b ∧ b ≤ 13

/-- Whether a line is all white space: that of ASCII, or U+0085, U+00A0, U+1680, U+2000 to U+200A, U+2028,
U+2029, U+202F, U+205F and U+3000. -/
def blank : Bytes → Bool
  | [] => true
  | 0xC2 :: c :: rest => (c = 0x85 ∨ c = 0xA0) && blank rest
  | 0xE1 :: c :: d :: rest => (c = 0x9A ∧ d = 0x80) && blank rest
  | 0xE2 :: c :: d :: rest =>
    (c = 0x80 ∧ (0x80 ≤ d ∧ d ≤ 0x8A ∨ d = 0xA8 ∨ d = 0xA9 ∨ d = 0xAF) ∨ c = 0x81 ∧ d = 0x9F) && blank rest
  | 0xE3 :: c :: d :: rest => (c = 0x80 ∧ d = 0x80) && blank rest
  | b :: rest => isWhite b && blank rest

theorem blank_white {line : Bytes} (white : ∀ b ∈ line, isWhite b = true) : blank line = true := by
  fun_induction blank line <;> simp_all [isWhite]

theorem blank_bytes {line : Bytes} (all : blank line = true) : ∀ b ∈ line, 128 ≤ b ∨ isWhite b = true := by
  fun_induction blank line with
  | case1 => simp
  | case2 c rest ih =>
    simp only [Bool.and_eq_true, decide_eq_true_eq] at all
    have second : 128 ≤ c := by rcases all.1 with rfl | rfl <;> decide
    simpa [second] using ih all.2
  | case3 c d rest ih =>
    simp only [Bool.and_eq_true, decide_eq_true_eq] at all
    obtain ⟨⟨rfl, rfl⟩, all⟩ := all
    simpa using ih all
  | case4 c d rest ih =>
    simp only [Bool.and_eq_true, decide_eq_true_eq] at all
    have second : 128 ≤ c := by rcases all.1 with ⟨rfl, _⟩ | ⟨rfl, _⟩ <;> decide
    have third : 128 ≤ d := by rcases all.1 with ⟨_, ⟨low, _⟩ | rfl | rfl | rfl⟩ | ⟨_, rfl⟩ <;> first | exact low | decide
    simpa [second, third] using ih all.2
  | case5 c d rest ih =>
    simp only [Bool.and_eq_true, decide_eq_true_eq] at all
    obtain ⟨⟨rfl, rfl⟩, all⟩ := all
    simpa using ih all
  | case6 b rest _ _ _ _ ih =>
    simp only [Bool.and_eq_true] at all
    simpa [all.1] using ih all.2

theorem bind_ok {ε α β : Type} {x : Except ε α} {f : α → Except ε β} {b : β} :
    (x >>= f) = .ok b ↔ ∃ a, x = .ok a ∧ f a = .ok b := by
  cases x with
  | error => simp [bind, Except.bind]
  | ok => simp [bind, Except.bind]

/-! ### Files of one record a line -/

section

variable {α : Type}

inductive LineFile.Tail (α : Type) where
  | nothing
  | cut
  | unterminated (record : α)

/-- The complete lines, `none` for one that does not parse, and what follows them. -/
structure LineFile (α : Type) where
  lines : List (Option α)
  tail : LineFile.Tail α

inductive LineFile.Rest where
  | none
  | some
  | all
  deriving DecidableEq

structure LineFile.Part where
  lines : Nat
  rest : Rest

namespace LineFile

def holding (records : List α) : LineFile α := ⟨records.map some, .nothing⟩

def append (file : LineFile α) : List α → LineFile α
  | [] => file
  | record :: records =>
    match file.tail with
    | .nothing => ⟨file.lines ++ (record :: records).map some, .nothing⟩
    | _ => ⟨file.lines ++ none :: records.map some, .nothing⟩

def appendPart (file : LineFile α) (records : List α) (part : Part) : LineFile α :=
  let landed := file.append (records.take part.lines)
  match records.drop part.lines, part.rest, landed.tail with
  | [], _, _ | _, .none, _ => landed
  | record :: _, .all, .nothing => ⟨landed.lines, .unterminated record⟩
  | _, _, _ => ⟨landed.lines, .cut⟩

/-- The file once its end is repaired: a record that lacks only its newline is given it, any other rest is cut. -/
def repaired (file : LineFile α) : LineFile α :=
  match file.tail with
  | .unterminated record => ⟨file.lines ++ [some record], .nothing⟩
  | _ => ⟨file.lines, .nothing⟩

theorem append_lines {file : LineFile α} (clean : file.tail = .nothing) (records : List α) :
    file.append records = ⟨file.lines ++ records.map some, .nothing⟩ := by
  cases records with
  | nil =>
    rw [List.map_nil, List.append_nil, ← clean]
    rfl
  | cons record records =>
    unfold append
    rw [clean]

theorem append_append {file : LineFile α} (clean : file.tail = .nothing) (records more : List α) :
    (file.append records).append more = file.append (records ++ more) := by
  rw [append_lines clean records, append_lines rfl, append_lines clean, List.map_append, List.append_assoc]

theorem appendPart_lines (file : LineFile α) (records : List α) (part : Part) :
    (file.appendPart records part).lines = (file.append (records.take part.lines)).lines := by
  unfold appendPart
  dsimp only
  split
  · rfl
  · rfl
  · rfl
  · rfl

theorem appendPart_repaired {file : LineFile α} (clean : file.tail = .nothing) (record : α) (part : Part) :
    (file.appendPart [record] part).repaired.lines =
      file.lines ++ if part.lines = 0 ∧ part.rest ≠ .all then [] else [some record] := by
  obtain ⟨count, rest⟩ := part
  cases count with
  | zero =>
    cases rest with
    | none => simp [appendPart, append, repaired, clean]
    | some => simp [appendPart, append, repaired]
    | all => simp [appendPart, append, repaired, clean]
  | succ count => simp [appendPart, append_lines clean, repaired]

theorem repaired_tail (file : LineFile α) : file.repaired.tail = .nothing := by
  unfold repaired
  split
  · rfl
  · rfl

end LineFile

end

end CommonMeasure
