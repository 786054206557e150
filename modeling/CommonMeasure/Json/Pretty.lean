import CommonMeasure.Json.Compact

/-!
# Indented text

The text `to_vec_pretty` writes: an item or member on a line of its own, two spaces deeper than its parent.
-/

namespace CommonMeasure.Json

def lineBreak (depth : Nat) : Bytes := newline :: List.replicate (2 * depth) 32

mutual

def writeIndented : Nat → Value → Bytes
  | _, .array [] => [91, 93]
  | indent, .array (item :: more) => 91 :: (lineBreak (indent + 1) ++ indentedItems indent (item :: more))
  | _, .object [] => [123, 125]
  | indent, .object (member :: more) => 123 :: (lineBreak (indent + 1) ++ indentedMembers indent (member :: more))
  | _, value => write value

def indentedItems : Nat → List Value → Bytes
  | _, [] => [93]
  | indent, [item] => writeIndented (indent + 1) item ++ (lineBreak indent ++ [93])
  | indent, item :: more =>
    writeIndented (indent + 1) item ++ 44 :: (lineBreak (indent + 1) ++ indentedItems indent more)

def indentedMembers : Nat → List (String × Value) → Bytes
  | _, [] => [125]
  | indent, [(name, value)] =>
    writeString name ++ 58 :: 32 :: (writeIndented (indent + 1) value ++ (lineBreak indent ++ [125]))
  | indent, (name, value) :: more =>
    writeString name ++ 58 :: 32 :: (writeIndented (indent + 1) value ++
      44 :: (lineBreak (indent + 1) ++ indentedMembers indent more))

end

/-- `to_vec_pretty`. -/
def pretty (value : Value) : Bytes := writeIndented 0 value

theorem skipSpace_spaces {spaces : Bytes} (all : ∀ b ∈ spaces, isSpace b = true) (rest : Bytes) :
    skipSpace (spaces ++ rest) = skipSpace rest := by
  induction spaces with
  | nil => rfl
  | cons b spaces ih =>
    simp only [List.mem_cons, forall_eq_or_imp] at all
    rw [List.cons_append, skipSpace, if_pos all.1, ih all.2]

theorem lineBreak_spaces (depth : Nat) : ∀ b ∈ lineBreak depth, isSpace b = true := by
  intro b member
  rcases List.mem_cons.mp member with rfl | member
  · decide
  · rw [(List.mem_replicate.mp member).2]
    decide

@[simp] theorem skipSpace_lineBreak (depth : Nat) (rest : Bytes) :
    skipSpace (lineBreak depth ++ rest) = skipSpace rest := skipSpace_spaces (lineBreak_spaces depth) rest

theorem readByte_lineBreak (b : UInt8) (depth : Nat) (rest : Bytes) :
    readByte b (lineBreak depth ++ rest) = readByte b rest := by
  rw [readByte, skipSpace_lineBreak, readByte]

theorem readNext_lineBreak (closer : UInt8) (depth : Nat) (rest : Bytes) :
    readNext closer (lineBreak depth ++ rest) = readNext closer rest := by
  rw [readNext, skipSpace_lineBreak, readNext]

theorem readValue_skip {bytes rest : Bytes} (same : skipSpace bytes = skipSpace rest) (fuel depth : Nat) :
    readValue fuel depth bytes = readValue fuel depth rest := by
  cases fuel with
  | zero => rw [readValue, readValue]
  | succ fuel => rw [readValue, readValue, same]

theorem readValue_space (fuel depth : Nat) (rest : Bytes) :
    readValue fuel depth (32 :: rest) = readValue fuel depth rest :=
  readValue_skip (by rw [skipSpace, if_pos (by decide)]) fuel depth

theorem readItems_lineBreak (fuel depth indent : Nat) (rest : Bytes) :
    readItems fuel depth (lineBreak indent ++ rest) = readItems fuel depth rest := by
  cases fuel with
  | zero => rw [readItems, readItems]
  | succ fuel => rw [readItems, readItems, readValue_skip (skipSpace_lineBreak indent rest)]

theorem readMembers_lineBreak (fuel depth indent : Nat) (rest : Bytes) :
    readMembers fuel depth (lineBreak indent ++ rest) = readMembers fuel depth rest := by
  cases fuel with
  | zero => rw [readMembers, readMembers]
  | succ fuel => rw [readMembers, readMembers, readByte_lineBreak]

theorem ends_lineBreak (depth : Nat) (rest : Bytes) : Ends (lineBreak depth ++ rest) :=
  ends_cons (by decide)

theorem writeIndented_head (indent : Nat) (v : Value) :
    ∃ b rest, writeIndented indent v = b :: rest ∧ startsValue b = true := by
  cases v with
  | array items => cases items <;> exact ⟨91, _, by rw [writeIndented], by decide⟩
  | object members => cases members <;> exact ⟨123, _, by rw [writeIndented], by decide⟩
  | _ => simpa only [writeIndented] using write_head _

theorem indentedItems_head (indent : Nat) (item : Value) (more : List Value) :
    ∃ b rest, indentedItems indent (item :: more) = b :: rest ∧ startsValue b = true := by
  obtain ⟨b, rest, same, starts⟩ := writeIndented_head (indent + 1) item
  cases more with
  | nil => exact ⟨b, _, by rw [indentedItems, same, List.cons_append], starts⟩
  | cons next more => exact ⟨b, _, by rw [indentedItems, same, List.cons_append]; simp, starts⟩

theorem indentedMembers_head (indent : Nat) (member : String × Value) (more : List (String × Value)) :
    ∃ rest, indentedMembers indent (member :: more) = 34 :: rest := by
  cases more with
  | nil => exact ⟨_, by rw [indentedMembers, writeString, List.cons_append]⟩
  | cons next more => exact ⟨_, by rw [indentedMembers, writeString, List.cons_append]; simp⟩

theorem readText_string (name : String) (rest : Bytes) :
    readByte 34 (writeString name ++ rest) = some ((utf8 name).flatMap escape ++ 34 :: rest) := by
  rw [writeString, List.cons_append, readByte_same (by decide), List.append_assoc]
  rfl

mutual

theorem readValue_indented : (v : Value) → ∀ {fuel depth indent : Nat} {rest : Bytes}, Ends rest →
    2 * (writeIndented indent v).length ≤ fuel →
    readValue fuel depth (writeIndented indent v ++ rest) = if v.depth ≤ depth then some (v, rest) else none
  | v, 0, depth, indent, rest, _, enough => by
    obtain ⟨b, text, same, _⟩ := writeIndented_head indent v
    simp [same] at enough
  | .null, fuel + 1, depth, indent, rest, ends, enough => by
    simpa only [writeIndented] using readValue_write .null ends (by simpa only [writeIndented] using enough)
  | .bool b, fuel + 1, depth, indent, rest, ends, enough => by
    simpa only [writeIndented] using readValue_write (.bool b) ends (by simpa only [writeIndented] using enough)
  | .number n, fuel + 1, depth, indent, rest, ends, enough => by
    simpa only [writeIndented] using readValue_write (.number n) ends (by simpa only [writeIndented] using enough)
  | .string s, fuel + 1, depth, indent, rest, ends, enough => by
    simpa only [writeIndented] using readValue_write (.string s) ends (by simpa only [writeIndented] using enough)
  | .array [], fuel + 1, depth, indent, rest, ends, enough => by
    simpa only [writeIndented, write, writeItems] using
      @readValue_write (.array []) (fuel + 1) depth rest ends (by simp only [writeIndented] at enough; simpa [write, writeItems] using enough)
  | .object [], fuel + 1, depth, indent, rest, ends, enough => by
    simpa only [writeIndented, write, writeMembers] using
      @readValue_write (.object []) (fuel + 1) depth rest ends (by simp only [writeIndented] at enough; simpa [write, writeMembers] using enough)
  | .array (item :: more), fuel + 1, depth, indent, rest, _, enough => by
    simp only [writeIndented, List.length_cons, List.length_append] at enough
    rw [writeIndented, List.cons_append, List.append_assoc, readValue, skipSpace_token (by decide)]
    simp only [if_neg (show (91 : UInt8) ≠ 34 by decide), if_true]
    cases depth with
    | zero => simp [Value.depth]
    | succ depth =>
      obtain ⟨b, text, same, starts⟩ := indentedItems_head indent item more
      have open_ : readByte 93 (indentedItems indent (item :: more) ++ rest) = none := by
        rw [same]
        refine readByte_other (startsValue_token starts) ?_ _
        rintro rfl
        exact absurd starts (by decide)
      have read : readItems fuel depth (indentedItems indent (item :: more) ++ rest) = _ :=
        readItems_indented (item :: more) (by simp) (by omega)
      simp only [readByte_lineBreak, readItems_lineBreak, open_, read, array_fits]
      split <;> rfl
  | .object (member :: more), fuel + 1, depth, indent, rest, _, enough => by
    simp only [writeIndented, List.length_cons, List.length_append] at enough
    rw [writeIndented, List.cons_append, List.append_assoc, readValue, skipSpace_token (by decide)]
    simp only [if_neg (show (123 : UInt8) ≠ 34 by decide), if_neg (show (123 : UInt8) ≠ 91 by decide),
      if_true]
    cases depth with
    | zero => simp [Value.depth]
    | succ depth =>
      obtain ⟨text, same⟩ := indentedMembers_head indent member more
      have open_ : readByte 125 (indentedMembers indent (member :: more) ++ rest) = none := by
        rw [same]
        exact readByte_other (by decide) (by decide) _
      have read : readMembers fuel depth (indentedMembers indent (member :: more) ++ rest) = _ :=
        readMembers_indented (member :: more) (by simp) (by omega)
      simp only [readByte_lineBreak, readMembers_lineBreak, open_, read, object_fits]
      split <;> rfl

theorem readItems_indented : (items : List Value) → items ≠ [] → ∀ {fuel depth indent : Nat} {rest : Bytes},
    2 * (indentedItems indent items).length + 1 ≤ fuel →
    readItems fuel depth (indentedItems indent items ++ rest) =
      if depthItems items ≤ depth then some (items, rest) else none
  | [], empty, _, _, _, _, _ => (empty rfl).elim
  | _ :: _, _, 0, _, _, _, enough => by omega
  | [item], _, fuel + 1, depth, indent, rest, enough => by
    simp only [indentedItems, List.length_append, List.length_singleton] at enough
    rw [indentedItems, List.append_assoc, List.append_assoc, readItems,
      readValue_indented item (ends_lineBreak _ _) (by omega)]
    by_cases fits : item.depth ≤ depth
    · simp [fits, readNext_lineBreak, readNext_close (show isSpace 93 = false by decide), depthItems]
    · simp [fits, depthItems]
  | item :: next :: more, _, fuel + 1, depth, indent, rest, enough => by
    simp only [indentedItems, List.length_append, List.length_cons] at enough
    rw [indentedItems, List.append_assoc, List.cons_append, List.append_assoc, readItems,
      readValue_indented item (ends_cons (by decide)) (by omega)]
    · have later : readItems fuel depth (indentedItems indent (next :: more) ++ rest) = _ :=
        readItems_indented (next :: more) (by simp) (by omega)
      by_cases fits : item.depth ≤ depth
      · rw [if_pos fits, Option.bind_some, readNext_comma (by decide), Option.bind_some]
        simp only [Bool.false_eq_true, if_false, readItems_lineBreak, later, items_fit, fits, true_and]
        split <;> rfl
      · simp [items_fit, fits]
    · simp

theorem readMembers_indented : (members : List (String × Value)) → members ≠ [] →
    ∀ {fuel depth indent : Nat} {rest : Bytes}, 2 * (indentedMembers indent members).length + 1 ≤ fuel →
    readMembers fuel depth (indentedMembers indent members ++ rest) =
      if depthMembers members ≤ depth then some (members, rest) else none
  | [], empty, _, _, _, _, _ => (empty rfl).elim
  | _ :: _, _, 0, _, _, _, enough => by omega
  | [(name, value)], _, fuel + 1, depth, indent, rest, enough => by
    simp only [indentedMembers, List.length_append, List.length_cons, List.length_nil] at enough
    rw [indentedMembers]
    simp only [List.cons_append, List.append_assoc, List.nil_append]
    have colon : readByte 58 (58 :: 32 :: (writeIndented (indent + 1) value ++ (lineBreak indent ++ 125 :: rest))) = _ :=
      readByte_same (by decide) _
    rw [readMembers, readText_string, Option.bind_some, readText_written, Option.bind_some, colon, Option.bind_some,
      readValue_space,
      readValue_indented value (ends_lineBreak _ _) (by omega)]
    by_cases fits : value.depth ≤ depth
    · simp [fits, readNext_lineBreak, readNext_close (show isSpace 125 = false by decide), depthMembers]
    · simp [fits, depthMembers]
  | (name, value) :: next :: more, _, fuel + 1, depth, indent, rest, enough => by
    simp only [indentedMembers, List.length_append, List.length_cons] at enough
    rw [indentedMembers]
    · simp only [List.cons_append, List.append_assoc]
      have colon : readByte 58 (58 :: 32 :: (writeIndented (indent + 1) value ++
          44 :: (lineBreak (indent + 1) ++ (indentedMembers indent (next :: more) ++ rest)))) = _ :=
        readByte_same (by decide) _
      rw [readMembers, readText_string, Option.bind_some, readText_written, Option.bind_some, colon, Option.bind_some,
        readValue_space,
        readValue_indented value (ends_cons (by decide)) (by omega)]
      have later : readMembers fuel depth (indentedMembers indent (next :: more) ++ rest) = _ :=
        readMembers_indented (next :: more) (by simp) (by omega)
      by_cases fits : value.depth ≤ depth
      · rw [if_pos fits, Option.bind_some, readNext_comma (by decide), Option.bind_some]
        simp only [Bool.false_eq_true, if_false, readMembers_lineBreak, later, members_fit, fits, true_and]
        split <;> rfl
      · simp [members_fit, fits]
    · simp

end

theorem readDocument_pretty (depth : Nat) (v : Value) :
    readDocument depth (pretty v) = if v.depth ≤ depth then some v else none := by
  have read : readValue (2 * (pretty v).length + 2) depth (pretty v ++ []) = _ :=
    readValue_indented v (by simp [Ends]) (by rw [pretty]; omega)
  obtain ⟨b, rest, same, starts⟩ := writeIndented_head 0 v
  have token : skipSpace (pretty v) = pretty v := by
    rw [pretty, same, skipSpace_token (startsValue_token starts)]
  rw [List.append_nil] at read
  rw [readDocument, token, read]
  split <;> rfl

end CommonMeasure.Json
