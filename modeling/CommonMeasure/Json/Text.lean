import CommonMeasure.Json.Value

namespace CommonMeasure.Json

theorem digitByte_digit {d : Nat} (small : d < 10) : isDigit (digitByte d) = true ∧ (digitByte d).toNat - 48 = d := by
  have all : ∀ d : Fin 10, isDigit (digitByte d) = true ∧ (digitByte d).toNat - 48 = d := by decide
  exact all ⟨d, small⟩

theorem decimal_digits (n : Nat) : ∀ b ∈ decimal n, isDigit b = true := by
  unfold decimal
  split
  · decide +kernel
  · intro b member
    simp only [List.mem_reverse, List.mem_map] at member
    obtain ⟨d, digit, rfl⟩ := member
    exact (digitByte_digit (Nat.digits_lt_base (by decide) digit)).1

theorem digitsValue_decimal (n : Nat) : digitsValue (decimal n) = n := by
  unfold digitsValue decimal
  split
  · rename_i zero
    simp [zero]
  · have value : ∀ d ∈ Nat.digits 10 n, ((fun b : UInt8 => b.toNat - 48) ∘ digitByte) d = id d := by
      intro d digit
      exact (digitByte_digit (Nat.digits_lt_base (by decide) digit)).2
    rw [List.reverse_reverse, List.map_map, List.map_congr_left value, List.map_id, Nat.ofDigits_digits]

theorem NumberState.run_whole {text : Bytes} (digits : ∀ b ∈ text, isDigit b = true) :
    NumberState.whole.run text = some .whole := by
  induction text with
  | nil => rfl
  | cons b text ih =>
    simp only [List.mem_cons, forall_eq_or_imp] at digits
    simp [NumberState.run, NumberState.step, digits.1, ih digits.2]

theorem decimal_head {n : Nat} (positive : 0 < n) :
    ∃ b rest, decimal n = b :: rest ∧ b ≠ 48 ∧ isDigit b = true := by
  have nonzero : n ≠ 0 := by omega
  have last := Nat.getLast_digit_ne_zero 10 nonzero
  have digits : Nat.digits 10 n ≠ [] := Nat.digits_ne_nil_iff_ne_zero.mpr nonzero
  have shape := List.dropLast_append_getLast digits
  have member := List.getLast_mem digits
  have digit := Nat.digits_lt_base (b := 10) (by decide) member
  refine ⟨digitByte ((Nat.digits 10 n).getLast digits),
    (((Nat.digits 10 n).dropLast).map digitByte).reverse, ?_, ?_, (digitByte_digit digit).1⟩
  · rw [decimal, if_neg nonzero]
    conv_lhs => rw [← shape]
    simp
  · intro zero
    have value := (digitByte_digit digit).2
    rw [zero] at value
    exact last value.symm

theorem isNumber_decimal (n : Nat) : isNumber (decimal n) = true := by
  rcases Nat.eq_zero_or_pos n with rfl | positive
  · decide
  · obtain ⟨b, rest, same, other, digit⟩ := decimal_head positive
    have digits := decimal_digits n
    have bytes : ∀ b ∈ decimal n, isNumberByte b = true := by
      intro b member
      simp [isNumberByte, digits b member]
    have minus : b ≠ 45 := by
      rintro rfl
      cases digit
    rw [isNumber, List.all_eq_true.mpr bytes, Bool.true_and]
    rw [same] at digits ⊢
    simp only [List.mem_cons, forall_eq_or_imp] at digits
    simp [NumberState.run, NumberState.step, minus, other, digit, NumberState.run_whole digits.2,
      NumberState.accepting]

def Number.ofNat (n : Nat) : Number := ⟨decimal n, isNumber_decimal n⟩

def Value.asU64 : Value → Option Nat
  | .number n => if n.text.all isDigit ∧ digitsValue n.text < 2 ^ 64 then some (digitsValue n.text) else none
  | _ => none

@[simp] theorem asU64_ofNat {n : Nat} (small : n < 2 ^ 64) : (Value.number (.ofNat n)).asU64 = some n := by
  have digits : (decimal n).all isDigit = true := List.all_eq_true.mpr (decimal_digits n)
  rw [Value.asU64, Number.ofNat, digitsValue_decimal]
  exact if_pos ⟨digits, small⟩

theorem Number.ofNat_inj {a b : Nat} (same : Number.ofNat a = Number.ofNat b) : a = b := by
  have text : decimal a = decimal b := congrArg Number.text same
  rw [← digitsValue_decimal a, text, digitsValue_decimal]

def Value.get : Value → String → Value
  | .object members, name => ((members.reverse.find? fun member => member.1 = name).map Prod.snd).getD .null
  | _, _ => .null

def Value.asStr : Value → Option String
  | .string s => some s
  | _ => none

def field (members : List (String × Value)) (name : String) : Option Value :=
  match members.filter fun member => member.1 = name with
  | [member] => some member.2
  | _ => none

def optional (members : List (String × Value)) (name : String) : Option (Option Value) :=
  match members.filter fun member => member.1 = name with
  | [] => some none
  | [(_, .null)] => some none
  | [(_, value)] => some (some value)
  | _ => none

def optionalText (members : List (String × Value)) (name : String) : Option (Option String) :=
  match optional members name with
  | some none => some none
  | some (some (.string s)) => some (some s)
  | _ => none

def text (members : List (String × Value)) (name : String) : Option String := (field members name).bind Value.asStr

theorem writeMembers_cons (name : String) (value : Value) (more : List (String × Value)) :
    writeMembers ((name, value) :: more) =
      writeString name ++ 58 :: (write value ++ if more = [] then [125] else 44 :: writeMembers more) := by
  cases more with
  | nil => simp [writeMembers]
  | cons next more => simp [writeMembers]

theorem writeItems_cons (item : Value) (more : List Value) :
    writeItems (item :: more) = write item ++ if more = [] then [93] else 44 :: writeItems more := by
  cases more with
  | nil => simp [writeItems]
  | cons next more => simp [writeItems]

theorem writeMembers_ends (members : List (String × Value)) : ∃ body, writeMembers members = body ++ [125] := by
  induction members with
  | nil => exact ⟨[], rfl⟩
  | cons member more ih =>
    obtain ⟨name, value⟩ := member
    obtain ⟨body, ends⟩ := ih
    rw [writeMembers_cons, ends]
    split
    · exact ⟨writeString name ++ 58 :: write value, by simp⟩
    · exact ⟨writeString name ++ 58 :: (write value ++ 44 :: body), by simp⟩

def Plain (name : String) : Prop := (utf8 name).flatMap escape = utf8 name

instance (name : String) : Decidable (Plain name) := by unfold Plain; infer_instance

theorem writeString_plain {name : String} (plain : Plain name) : writeString name = 34 :: (utf8 name ++ [34]) := by
  rw [writeString, plain]

theorem writeMembers_name {name : String} {value : Value} {members : List (String × Value)}
    (member : (name, value) ∈ members) : writeString name <:+: writeMembers members := by
  induction members with
  | nil => cases member
  | cons first more ih =>
    obtain ⟨first, firstValue⟩ := first
    rw [writeMembers_cons]
    rcases List.mem_cons.mp member with same | later
    · obtain ⟨rfl, rfl⟩ := Prod.mk.inj same
      exact (List.prefix_append _ _).isInfix
    · rw [if_neg (List.ne_nil_of_mem later)]
      refine (ih later).trans (List.IsSuffix.isInfix ⟨writeString first ++ 58 :: (write firstValue ++ [44]), ?_⟩)
      simp

theorem writeMembers_value {name : String} {value : Value} {members : List (String × Value)}
    (member : (name, value) ∈ members) : write value <:+: writeMembers members := by
  induction members with
  | nil => cases member
  | cons first more ih =>
    obtain ⟨first, firstValue⟩ := first
    rw [writeMembers_cons]
    rcases List.mem_cons.mp member with same | later
    · obtain ⟨rfl, rfl⟩ := Prod.mk.inj same
      exact ⟨writeString name ++ [58], _, by rw [List.append_assoc, List.append_assoc]; rfl⟩
    · rw [if_neg (List.ne_nil_of_mem later)]
      refine (ih later).trans (List.IsSuffix.isInfix ⟨writeString first ++ 58 :: (write firstValue ++ [44]), ?_⟩)
      simp

theorem write_object_name {name : String} {value : Value} {members : List (String × Value)} (plain : Plain name)
    (member : (name, value) ∈ members) : utf8 name <:+: write (.object members) := by
  have quoted : utf8 name <:+: writeString name := ⟨[34], [34], by rw [writeString_plain plain]; rfl⟩
  rw [write]
  exact (quoted.trans (writeMembers_name member)).trans (List.suffix_cons _ _).isInfix

theorem write_object_value {name : String} {value : Value} {members : List (String × Value)}
    (member : (name, value) ∈ members) : write value <:+: write (.object members) := by
  rw [write]
  exact (writeMembers_value member).trans (List.suffix_cons _ _).isInfix

theorem escape_lineFree (b : UInt8) : LineFree (escape b) := by
  exact forall_byte (P := fun b => LineFree (escape b)) (by decide +kernel) b

theorem writeString_lineFree (s : String) : LineFree (writeString s) := by
  have body : LineFree ((utf8 s).flatMap escape) := by
    intro member
    obtain ⟨b, _, inside⟩ := List.mem_flatMap.mp member
    exact escape_lineFree b inside
  simp only [writeString, LineFree, List.mem_cons, List.mem_append, not_or] at body ⊢
  exact ⟨by decide, body, by decide, by simp⟩

theorem Number.text_lineFree (n : Number) : LineFree n.text := by
  intro member
  have whole := n.wellFormed
  simp only [isNumber, Bool.and_eq_true, List.all_eq_true] at whole
  have plain := whole.1 newline member
  exact absurd plain (by decide)

theorem lineFree_cons {b : UInt8} {bytes : Bytes} : LineFree (b :: bytes) ↔ newline ≠ b ∧ LineFree bytes := by
  simp [LineFree]

mutual

theorem write_lineFree : (v : Value) → LineFree (write v)
  | .null => by rw [write]; decide
  | .bool true => by rw [write]; decide
  | .bool false => by rw [write]; decide
  | .number n => by rw [write]; exact n.text_lineFree
  | .string s => by rw [write]; exact writeString_lineFree s
  | .array items => by rw [write, lineFree_cons]; exact ⟨by decide, writeItems_lineFree items⟩
  | .object members => by rw [write, lineFree_cons]; exact ⟨by decide, writeMembers_lineFree members⟩

theorem writeItems_lineFree : (items : List Value) → LineFree (writeItems items)
  | [] => by rw [writeItems]; decide
  | item :: more => by
    rw [writeItems_cons, lineFree_append]
    refine ⟨write_lineFree item, ?_⟩
    split
    · decide
    · rw [lineFree_cons]
      exact ⟨by decide, writeItems_lineFree more⟩

theorem writeMembers_lineFree : (members : List (String × Value)) → LineFree (writeMembers members)
  | [] => by rw [writeMembers]; decide
  | (name, value) :: more => by
    rw [writeMembers_cons, lineFree_append, lineFree_cons, lineFree_append]
    refine ⟨writeString_lineFree name, by decide, write_lineFree value, ?_⟩
    split
    · decide
    · rw [lineFree_cons]
      exact ⟨by decide, writeMembers_lineFree more⟩

end

mutual

theorem depth_le : (v : Value) → v.depth ≤ (write v).length
  | .null | .bool _ | .number _ | .string _ => by simp [Value.depth]
  | .array items => by
    rw [Value.depth, write, List.length_cons]
    have inner := depthItems_le items
    omega
  | .object members => by
    rw [Value.depth, write, List.length_cons]
    have inner := depthMembers_le members
    omega

theorem depthItems_le : (items : List Value) → depthItems items ≤ (writeItems items).length
  | [] => by simp [depthItems]
  | item :: more => by
    have first := depth_le item
    have rest := depthItems_le more
    rw [depthItems, writeItems_cons, List.length_append]
    split
    · rename_i last
      subst last
      simp only [depthItems]
      omega
    · rw [List.length_cons]
      omega

theorem depthMembers_le : (members : List (String × Value)) → depthMembers members ≤ (writeMembers members).length
  | [] => by simp [depthMembers]
  | (name, value) :: more => by
    have first := depth_le value
    have rest := depthMembers_le more
    rw [depthMembers, writeMembers_cons]
    simp only [List.length_append, List.length_cons]
    split
    · rename_i last
      subst last
      simp only [depthMembers]
      omega
    · rw [List.length_cons]
      omega

end

theorem depthMembers_bound {members : List (String × Value)} {bound : Nat}
    (shallow : ∀ member ∈ members, member.2.depth ≤ bound) : depthMembers members ≤ bound := by
  induction members with
  | nil => exact Nat.zero_le _
  | cons member more ih =>
    simp only [List.mem_cons, forall_eq_or_imp] at shallow
    rw [depthMembers]
    exact Nat.max_le.mpr ⟨shallow.1, ih shallow.2⟩

def isSpace (b : UInt8) : Bool := b == 32 || b == 9 || b == 10 || b == 13

def startsValue (b : UInt8) : Bool :=
  b == 34 || b == 91 || b == 123 || b == 110 || b == 116 || b == 102 || b == 45 || isDigit b

def recursionLimit : Nat := 127

def LetterName (name : String) : Prop := ∃ c rest, utf8 name = c :: rest ∧ 97 ≤ c ∧ c ≤ 122

structure Reader where
  /-- The values the reader's value type holds: an object names each member once, and a number is
  one it writes itself. -/
  Holds : Value → Prop
  holds_null : Holds .null
  holds_bool : ∀ b, Holds (.bool b)
  holds_string : ∀ s, Holds (.string s)
  holds_number : ∀ n, n < 2 ^ 64 → Holds (.number (.ofNat n))
  holds_array : ∀ items, (∀ item ∈ items, Holds item) → Holds (.array items)
  holds_object : ∀ members, (members.map Prod.fst).Nodup → (∀ member ∈ members, Holds member.2) →
    Holds (.object members)
  /-- The document the bytes are, if they are one. -/
  fromSlice : Bytes → Option Value
  read_write : ∀ value, Holds value →
    fromSlice (write value) = if value.depth ≤ recursionLimit then some value else none
  read_cut : ∀ members cut, cut <+: write (.object members) → cut ≠ write (.object members) →
    fromSlice cut = none
  read_glued : ∀ bytes name value more, LetterName name → (∃ b ∈ bytes, isSpace b = false) →
    fromSlice (bytes ++ write (.object ((name, value) :: more))) = none
  read_space : ∀ b bytes, isSpace b = true → fromSlice (b :: bytes) = fromSlice bytes
  read_stray : ∀ b bytes, isSpace b = false → startsValue b = false → fromSlice (b :: bytes) = none
  /-- Whether the bytes are one document, read without building it. -/
  ignoredAny : Bytes → Bool
  ignored_write : ∀ value, ignoredAny (write value) = true
  ignored_cut : ∀ members cut, cut <+: write (.object members) → cut ≠ write (.object members) →
    ignoredAny cut = false

end CommonMeasure.Json
