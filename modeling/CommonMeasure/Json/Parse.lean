import CommonMeasure.Json.Text

/-!
# Reading JSON text

A recursive-descent reader of RFC 8259 documents, refusing surrogate escapes.
-/

namespace CommonMeasure.Json

def skipSpace : Bytes → Bytes
  | [] => []
  | b :: rest => if isSpace b then skipSpace rest else b :: rest

/-- What a backslash and `c` stand for, other than a `\u` escape. -/
def unescape (c : UInt8) : Option UInt8 :=
  if c = 34 ∨ c = 92 ∨ c = 47 then some c
  else if c = 98 then some 8
  else if c = 116 then some 9
  else if c = 110 then some 10
  else if c = 102 then some 12
  else if c = 114 then some 13
  else none

def hexValue (b : UInt8) : Option Nat :=
  if isDigit b then some (b.toNat - 48)
  else if 97 ≤ b ∧ b ≤ 102 then some (b.toNat - 87)
  else if 65 ≤ b ∧ b ≤ 70 then some (b.toNat - 55)
  else none

def readUnit (a b c d : UInt8) : Option Bytes :=
  (hexValue a).bind fun a => (hexValue b).bind fun b => (hexValue c).bind fun c => (hexValue d).bind fun d =>
    let code := ((a * 16 + b) * 16 + c) * 16 + d
    if 0xD800 ≤ code ∧ code < 0xE000 then none else some (String.utf8EncodeChar (Char.ofNat code))

def readBody : Bytes → Option (Bytes × Bytes)
  | [] => none
  | b :: rest =>
    if b = 34 then some ([], rest)
    else if b = 92 then
      match rest with
      | [] => none
      | c :: rest =>
        if c = 117 then
          match rest with
          | h₁ :: h₂ :: h₃ :: h₄ :: rest =>
            (readUnit h₁ h₂ h₃ h₄).bind fun unit => (readBody rest).map fun r => (unit ++ r.1, r.2)
          | _ => none
        else (unescape c).bind fun plain => (readBody rest).map fun r => (plain :: r.1, r.2)
    else if b < 32 then none
    else (readBody rest).map fun r => (b :: r.1, r.2)

def readText (bytes : Bytes) : Option (String × Bytes) :=
  (readBody bytes).bind fun r => (fromUtf8 r.1).map fun s => (s, r.2)

def readNumber (bytes : Bytes) : Option (Number × Bytes) :=
  if h : isNumber (bytes.takeWhile isNumberByte) = true then
    some (⟨bytes.takeWhile isNumberByte, h⟩, bytes.dropWhile isNumberByte)
  else none

/-- What follows `literal`, if the bytes begin with it. -/
def readLiteral (literal bytes : Bytes) : Option Bytes :=
  if literal.isPrefixOf bytes then some (bytes.drop literal.length) else none

def readByte (b : UInt8) (bytes : Bytes) : Option Bytes :=
  match skipSpace bytes with
  | [] => none
  | c :: rest => if c = b then some rest else none

def readNext (closer : UInt8) (bytes : Bytes) : Option (Bool × Bytes) :=
  match skipSpace bytes with
  | [] => none
  | c :: rest => if c = closer then some (true, rest) else if c = 44 then some (false, rest) else none

mutual

/-- One value, nesting at most `depth` deep. -/
def readValue : Nat → Nat → Bytes → Option (Value × Bytes)
  | 0, _, _ => none
  | fuel + 1, depth, bytes =>
    match skipSpace bytes with
    | [] => none
    | b :: rest =>
      if b = 34 then (readText rest).map fun r => (.string r.1, r.2)
      else if b = 91 then
        match depth with
        | 0 => none
        | depth + 1 =>
          match readByte 93 rest with
          | some rest => some (.array [], rest)
          | none => (readItems fuel depth rest).map fun r => (.array r.1, r.2)
      else if b = 123 then
        match depth with
        | 0 => none
        | depth + 1 =>
          match readByte 125 rest with
          | some rest => some (.object [], rest)
          | none => (readMembers fuel depth rest).map fun r => (.object r.1, r.2)
      else if b = 110 then (readLiteral [117, 108, 108] rest).map fun rest => (.null, rest)
      else if b = 116 then (readLiteral [114, 117, 101] rest).map fun rest => (.bool true, rest)
      else if b = 102 then (readLiteral [97, 108, 115, 101] rest).map fun rest => (.bool false, rest)
      else (readNumber (b :: rest)).map fun r => (.number r.1, r.2)

def readItems : Nat → Nat → Bytes → Option (List Value × Bytes)
  | 0, _, _ => none
  | fuel + 1, depth, bytes =>
    (readValue fuel depth bytes).bind fun item =>
      (readNext 93 item.2).bind fun next =>
        if next.1 then some ([item.1], next.2)
        else (readItems fuel depth next.2).map fun r => (item.1 :: r.1, r.2)

def readMembers : Nat → Nat → Bytes → Option (List (String × Value) × Bytes)
  | 0, _, _ => none
  | fuel + 1, depth, bytes =>
    (readByte 34 bytes).bind fun rest =>
      (readText rest).bind fun name =>
        (readByte 58 name.2).bind fun rest =>
          (readValue fuel depth rest).bind fun value =>
            (readNext 125 value.2).bind fun next =>
              if next.1 then some ([(name.1, value.1)], next.2)
              else (readMembers fuel depth next.2).map fun r => ((name.1, value.1) :: r.1, r.2)

end

/-- The one document the bytes are, nesting at most `depth` deep. -/
def readDocument (depth : Nat) (bytes : Bytes) : Option Value :=
  let text := skipSpace bytes
  (readValue (2 * text.length + 2) depth text).bind fun r => if skipSpace r.2 = [] then some r.1 else none

/-! ### Bytes a value begins with -/

@[simp] theorem skipSpace_token {b : UInt8} (token : isSpace b = false) (rest : Bytes) :
    skipSpace (b :: rest) = b :: rest := by
  simp [skipSpace, token]

theorem skipSpace_idempotent (bytes : Bytes) : skipSpace (skipSpace bytes) = skipSpace bytes := by
  induction bytes with
  | nil => rfl
  | cons b bytes ih =>
    rw [skipSpace]
    split
    · exact ih
    · rename_i token
      exact skipSpace_token (by simpa using token) bytes

theorem space_of_skipSpace_nil {bytes : Bytes} (spaces : skipSpace bytes = []) : ∀ b ∈ bytes, isSpace b = true := by
  induction bytes with
  | nil => simp
  | cons b bytes ih =>
    rw [skipSpace] at spaces
    split at spaces
    · rename_i space
      exact List.forall_mem_cons.mpr ⟨space, ih spaces⟩
    · cases spaces

theorem startsValue_token {b : UInt8} (starts : startsValue b = true) : isSpace b = false := by
  exact forall_byte (P := fun b => startsValue b = true → isSpace b = false) (by decide +kernel) b starts

theorem numberByte_token {b : UInt8} (member : isNumberByte b = true) :
    isSpace b = false ∧ b ≠ 34 ∧ b ≠ 91 ∧ b ≠ 123 ∧ b ≠ 110 ∧ b ≠ 116 ∧ b ≠ 102 := by
  exact forall_byte (P := fun b => isNumberByte b = true → isSpace b = false ∧ b ≠ 34 ∧ b ≠ 91 ∧ b ≠ 123 ∧
    b ≠ 110 ∧ b ≠ 116 ∧ b ≠ 102) (by decide +kernel) b member

theorem Number.text_bytes (n : Number) : ∀ b ∈ n.text, isNumberByte b = true := by
  have whole := n.wellFormed
  simp only [isNumber, Bool.and_eq_true, List.all_eq_true] at whole
  exact whole.1

theorem Number.text_head (n : Number) : ∃ b rest, n.text = b :: rest ∧ startsValue b = true := by
  obtain ⟨text, whole⟩ := n
  cases text with
  | nil => simp [isNumber, NumberState.run, NumberState.accepting] at whole
  | cons b rest =>
    refine ⟨b, rest, rfl, ?_⟩
    simp only [isNumber, NumberState.run, NumberState.step, Bool.and_eq_true] at whole
    by_contra other
    simp only [startsValue, Bool.or_eq_true, beq_iff_eq, not_or] at other
    have step : b ≠ 45 ∧ b ≠ 48 ∧ isDigit b = false := by
      refine ⟨by simp [other], ?_, by simpa using other.2⟩
      rintro rfl
      exact other.2 (by decide)
    simp [step] at whole

theorem write_head (v : Value) : ∃ b rest, write v = b :: rest ∧ startsValue b = true := by
  cases v with
  | number n => simpa [write] using n.text_head
  | bool b => cases b <;> exact ⟨_, _, by rw [write], by decide⟩
  | string s => exact ⟨34, _, by rw [write, writeString], by decide⟩
  | _ => exact ⟨_, _, by rw [write], by decide⟩

@[simp] theorem readBody_quote (rest : Bytes) : readBody (34 :: rest) = some ([], rest) := by
  rw [readBody.eq_def]
  rfl

theorem readBody_plain {b : UInt8} (quote : b ≠ 34) (slash : b ≠ 92) (control : ¬b < 32) (rest : Bytes) :
    readBody (b :: rest) = (readBody rest).map fun r => (b :: r.1, r.2) := by
  rw [readBody.eq_def]
  simp only [if_neg quote, if_neg slash, if_neg control]

theorem readBody_slash {c : UInt8} (unit : c ≠ 117) (rest : Bytes) :
    readBody (92 :: c :: rest) =
      (unescape c).bind fun plain => (readBody rest).map fun r => (plain :: r.1, r.2) := by
  rw [readBody.eq_def]
  simp only [if_neg (show (92 : UInt8) ≠ 34 by decide), if_true, if_neg unit]

theorem readBody_unit (a b c d : UInt8) (rest : Bytes) :
    readBody (92 :: 117 :: a :: b :: c :: d :: rest) =
      (readUnit a b c d).bind fun unit => (readBody rest).map fun r => (unit ++ r.1, r.2) := by
  rw [readBody.eq_def]
  simp only [if_neg (show (92 : UInt8) ≠ 34 by decide), if_true]

theorem readUnit_hex {b : UInt8} (control : b < 32) :
    readUnit 48 48 (hexDigit (b / 16)) (hexDigit (b % 16)) = some [b] := by
  exact forall_byte (P := fun b => b < 32 → readUnit 48 48 (hexDigit (b / 16)) (hexDigit (b % 16)) = some [b])
    (by decide +kernel) b control

theorem readBody_escape (b : UInt8) (rest : Bytes) :
    readBody (escape b ++ rest) = (readBody rest).map fun r => (b :: r.1, r.2) := by
  unfold escape
  split
  · subst b; exact readBody_slash (by decide) rest
  split
  · subst b; exact readBody_slash (by decide) rest
  split
  · subst b; exact readBody_slash (by decide) rest
  split
  · subst b; exact readBody_slash (by decide) rest
  split
  · subst b; exact readBody_slash (by decide) rest
  split
  · subst b; exact readBody_slash (by decide) rest
  split
  · subst b; exact readBody_slash (by decide) rest
  split
  · rename_i control
    have unit := readUnit_hex control
    change readBody (92 :: 117 :: 48 :: 48 :: hexDigit (b / 16) :: hexDigit (b % 16) :: rest) = _
    rw [readBody_unit, unit]
    rfl
  · rename_i quote slash _ _ _ _ _ control
    exact readBody_plain quote slash control rest

theorem readBody_escaped (bytes rest : Bytes) :
    readBody (bytes.flatMap escape ++ 34 :: rest) = some (bytes, rest) := by
  induction bytes with
  | nil => simp
  | cons b bytes ih => rw [List.flatMap_cons, List.append_assoc, readBody_escape, ih]; rfl

theorem readText_written (s : String) (rest : Bytes) :
    readText ((utf8 s).flatMap escape ++ 34 :: rest) = some (s, rest) := by
  rw [readText, readBody_escaped]
  simp

def Ends (rest : Bytes) : Prop := ∀ b ∈ rest.head?, isNumberByte b = false

theorem ends_cons {b : UInt8} {rest : Bytes} (stop : isNumberByte b = false) : Ends (b :: rest) := by
  simpa [Ends] using stop

theorem takeWhile_number {text rest : Bytes} (all : ∀ b ∈ text, isNumberByte b = true) (ends : Ends rest) :
    (text ++ rest).takeWhile isNumberByte = text ∧ (text ++ rest).dropWhile isNumberByte = rest := by
  rw [List.takeWhile_append_of_pos all, List.dropWhile_append_of_pos all]
  cases rest with
  | nil => simp
  | cons b rest =>
    have stop : isNumberByte b = false := ends b rfl
    simp [stop]

theorem readNumber_text (n : Number) {rest : Bytes} (ends : Ends rest) :
    readNumber (n.text ++ rest) = some (n, rest) := by
  obtain ⟨taken, dropped⟩ := takeWhile_number n.text_bytes ends
  rw [readNumber, dif_pos (by rw [taken]; exact n.wellFormed), dropped]
  simp [taken]

theorem readByte_other {b c : UInt8} (token : isSpace c = false) (different : c ≠ b) (rest : Bytes) :
    readByte b (c :: rest) = none := by
  simp [readByte, token, different]

theorem readByte_same {b : UInt8} (token : isSpace b = false) (rest : Bytes) :
    readByte b (b :: rest) = some rest := by
  simp [readByte, token]

theorem readNext_close {closer : UInt8} (token : isSpace closer = false) (rest : Bytes) :
    readNext closer (closer :: rest) = some (true, rest) := by
  simp [readNext, token]

theorem readNext_comma {closer : UInt8} (different : closer ≠ 44) (rest : Bytes) :
    readNext closer (44 :: rest) = some (false, rest) := by
  simp [readNext, show isSpace 44 = false from rfl, Ne.symm different]

theorem readValue_number {n : Number} {fuel depth : Nat} {rest : Bytes} (ends : Ends rest) :
    readValue (fuel + 1) depth (n.text ++ rest) = some (.number n, rest) := by
  have read := readNumber_text n ends
  obtain ⟨b, text, same, _⟩ := n.text_head
  have member : isNumberByte b = true := n.text_bytes b (by simp [same])
  obtain ⟨token, quote, bracket, brace, null, yes, no⟩ := numberByte_token member
  rw [same, List.cons_append] at read ⊢
  rw [readValue, skipSpace_token token]
  simp only [if_neg quote, if_neg bracket, if_neg brace, if_neg null, if_neg yes, if_neg no, read]
  rfl

theorem writeItems_head {items : List Value} (some : items ≠ []) :
    ∃ b rest, writeItems items = b :: rest ∧ startsValue b = true := by
  match items with
  | [item] =>
    obtain ⟨b, rest, same, starts⟩ := write_head item
    exact ⟨b, _, by rw [writeItems, same, List.cons_append], starts⟩
  | item :: next :: more =>
    obtain ⟨b, rest, same, starts⟩ := write_head item
    exact ⟨b, _, by rw [writeItems, same, List.cons_append]; simp, starts⟩

theorem writeMembers_head {members : List (String × Value)} (some : members ≠ []) :
    ∃ rest, writeMembers members = 34 :: rest := by
  match members with
  | [(name, value)] => exact ⟨_, by rw [writeMembers, writeString, List.cons_append]⟩
  | (name, value) :: next :: more => exact ⟨_, by rw [writeMembers, writeString, List.cons_append]; simp⟩

section

variable {items more : List Value} {members others : List (String × Value)} {item : Value} {member : String × Value} {depth : Nat}

theorem array_fits : (Value.array items).depth ≤ depth + 1 ↔ depthItems items ≤ depth := by
  rw [Value.depth]
  omega

theorem object_fits : (Value.object members).depth ≤ depth + 1 ↔ depthMembers members ≤ depth := by
  rw [Value.depth]
  omega

theorem items_fit : depthItems (item :: more) ≤ depth ↔ item.depth ≤ depth ∧ depthItems more ≤ depth := by
  rw [depthItems]
  omega

theorem members_fit : depthMembers (member :: others) ≤ depth ↔ member.2.depth ≤ depth ∧ depthMembers others ≤ depth := by
  rw [depthMembers]
  omega

end

mutual

theorem readValue_write : (v : Value) → ∀ {fuel depth : Nat} {rest : Bytes}, Ends rest →
    2 * (write v).length ≤ fuel →
    readValue fuel depth (write v ++ rest) = if v.depth ≤ depth then some (v, rest) else none
  | v, 0, depth, rest, _, enough => by
    obtain ⟨b, text, same, _⟩ := write_head v
    simp [same] at enough
  | .null, fuel + 1, depth, rest, _, _ => by
    simp [write, readValue, Value.depth, isSpace, readLiteral]
  | .bool true, fuel + 1, depth, rest, _, _ => by
    simp [write, readValue, Value.depth, isSpace, readLiteral]
  | .bool false, fuel + 1, depth, rest, _, _ => by
    simp [write, readValue, Value.depth, isSpace, readLiteral]
  | .number n, fuel + 1, depth, rest, ends, _ => by
    rw [write, readValue_number ends]
    simp [Value.depth]
  | .string s, fuel + 1, depth, rest, _, _ => by
    rw [write, writeString, List.cons_append, List.append_assoc, readValue,
      skipSpace_token (by decide)]
    simp [readText_written, Value.depth]
  | .array items, fuel + 1, depth, rest, _, enough => by
    rw [write, List.cons_append, readValue, skipSpace_token (by decide)]
    simp only [if_neg (show (91 : UInt8) ≠ 34 by decide), if_true]
    cases depth with
    | zero => simp [Value.depth]
    | succ depth =>
      by_cases empty : items = []
      · subst empty
        simp [writeItems, readByte_same (show isSpace 93 = false by decide), Value.depth, depthItems]
      · obtain ⟨b, text, same, starts⟩ := writeItems_head empty
        have open_ : readByte 93 (writeItems items ++ rest) = none := by
          rw [same]
          refine readByte_other (startsValue_token starts) ?_ _
          rintro rfl
          exact absurd starts (by decide)
        have read : readItems fuel depth (writeItems items ++ rest) = _ :=
          readItems_write items empty (by simp only [write, List.length_cons] at enough; omega)
        simp only [open_, read, array_fits]
        split <;> rfl
  | .object members, fuel + 1, depth, rest, _, enough => by
    rw [write, List.cons_append, readValue, skipSpace_token (by decide)]
    simp only [if_neg (show (123 : UInt8) ≠ 34 by decide), if_neg (show (123 : UInt8) ≠ 91 by decide),
      if_true]
    cases depth with
    | zero => simp [Value.depth]
    | succ depth =>
      by_cases empty : members = []
      · subst empty
        simp [writeMembers, readByte_same (show isSpace 125 = false by decide), Value.depth, depthMembers]
      · obtain ⟨text, same⟩ := writeMembers_head empty
        have open_ : readByte 125 (writeMembers members ++ rest) = none := by
          rw [same]
          exact readByte_other (by decide) (by decide) _
        have read : readMembers fuel depth (writeMembers members ++ rest) = _ :=
          readMembers_write members empty (by simp only [write, List.length_cons] at enough; omega)
        simp only [open_, read, object_fits]
        split <;> rfl

theorem readItems_write : (items : List Value) → items ≠ [] → ∀ {fuel depth : Nat} {rest : Bytes},
    2 * (writeItems items).length + 1 ≤ fuel →
    readItems fuel depth (writeItems items ++ rest) =
      if depthItems items ≤ depth then some (items, rest) else none
  | [], empty, _, _, _, _ => (empty rfl).elim
  | _ :: _, _, 0, _, _, enough => by omega
  | [item], _, fuel + 1, depth, rest, enough => by
    simp only [writeItems, List.length_append, List.length_singleton] at enough
    rw [writeItems, List.append_assoc, List.singleton_append, readItems,
      readValue_write item (ends_cons (by decide)) (by omega)]
    by_cases fits : item.depth ≤ depth
    · simp [fits, readNext_close (show isSpace 93 = false by decide), depthItems]
    · simp [fits, depthItems]
  | item :: next :: more, _, fuel + 1, depth, rest, enough => by
    simp only [writeItems, List.length_append, List.length_cons] at enough
    rw [writeItems, List.append_assoc, List.cons_append, readItems,
      readValue_write item (ends_cons (by decide)) (by omega)]
    · have later : readItems fuel depth (writeItems (next :: more) ++ rest) = _ :=
        readItems_write (next :: more) (by simp) (by omega)
      by_cases fits : item.depth ≤ depth
      · rw [if_pos fits, Option.bind_some, readNext_comma (by decide), Option.bind_some]
        simp only [Bool.false_eq_true, if_false, later, items_fit, fits, true_and]
        split <;> rfl
      · simp [items_fit, fits]
    · simp

theorem readMembers_write : (members : List (String × Value)) → members ≠ [] →
    ∀ {fuel depth : Nat} {rest : Bytes}, 2 * (writeMembers members).length + 1 ≤ fuel →
    readMembers fuel depth (writeMembers members ++ rest) =
      if depthMembers members ≤ depth then some (members, rest) else none
  | [], empty, _, _, _, _ => (empty rfl).elim
  | _ :: _, _, 0, _, _, enough => by omega
  | [(name, value)], _, fuel + 1, depth, rest, enough => by
    simp only [writeMembers, List.length_append, List.length_cons, List.length_nil] at enough
    rw [writeMembers, writeString]
    simp only [List.cons_append, List.append_assoc, List.nil_append]
    rw [readMembers, readByte_same (by decide), Option.bind_some, readText_written, Option.bind_some,
      readByte_same (by decide), Option.bind_some,
      readValue_write value (ends_cons (by decide)) (by omega)]
    by_cases fits : value.depth ≤ depth
    · simp [fits, readNext_close (show isSpace 125 = false by decide), depthMembers]
    · simp [fits, depthMembers]
  | (name, value) :: next :: more, _, fuel + 1, depth, rest, enough => by
    simp only [writeMembers, List.length_append, List.length_cons] at enough
    rw [writeMembers, writeString]
    · simp only [List.cons_append, List.append_assoc, List.nil_append]
      rw [readMembers, readByte_same (by decide), Option.bind_some, readText_written, Option.bind_some,
        readByte_same (by decide), Option.bind_some,
        readValue_write value (ends_cons (by decide)) (by omega)]
      have later : readMembers fuel depth (writeMembers (next :: more) ++ rest) = _ :=
        readMembers_write (next :: more) (by simp) (by omega)
      by_cases fits : value.depth ≤ depth
      · rw [if_pos fits, Option.bind_some, readNext_comma (by decide), Option.bind_some]
        simp only [Bool.false_eq_true, if_false, later, members_fit, fits, true_and]
        split <;> rfl
      · simp [members_fit, fits]
    · simp

end

end CommonMeasure.Json
