import Mathlib.Data.List.DropRight

/-!
# Structured-field dictionaries

The Dictionary grammar of RFC 9651: a text, and the members it is written from.
-/

namespace CommonMeasure.StructuredFields

def keyStart (c : Char) : Bool := c.isLower || c == '*'

def keyChar (c : Char) : Bool := c.isLower || c.isDigit || "_-.*".toList.contains c

inductive Key : List Char → Prop
  | of {first : Char} {rest : List Char} : keyStart first = true → (∀ c ∈ rest, keyChar c = true) → Key (first :: rest)

def tokenStart (c : Char) : Bool := c.isAlpha || c == '*'

def tokenChar (c : Char) : Bool := c.isAlphanum || "!#$%&'*+-.^_`|~".toList.contains c || c == ':' || c == '/'

inductive Kind where
  | integer
  | decimal
  | string
  | token (name : List Char)
  | byte_sequence
  | boolean
  | date
  | display_string
deriving DecidableEq

inductive Sign : List Char → Prop
  | plain : Sign []
  | minus : Sign ['-']

def Digits (least most : Nat) (digits : List Char) : Prop :=
  least ≤ digits.length ∧ digits.length ≤ most ∧ ∀ c ∈ digits, c.isDigit = true

def visible (c : Char) : Bool := 0x20 ≤ c.toNat && c.toNat ≤ 0x7E

def quoted (c : Char) : List Char := if c = '"' ∨ c = '\\' then ['\\', c] else [c]

def percent (octet : UInt8) : List Char :=
  ['%', "0123456789abcdef".toList.getD (octet.toNat / 16) '0', "0123456789abcdef".toList.getD (octet.toNat % 16) '0']

inductive Displayed : List Char → Prop
  | nil : Displayed []
  | char {c : Char} {rest : List Char} : visible c = true → c ≠ '"' → c ≠ '%' → Displayed rest → Displayed (c :: rest)
  | octets (c : Char) {rest : List Char} : Displayed rest → Displayed ((String.utf8EncodeChar c).flatMap percent ++ rest)

inductive Bare : Kind → List Char → Prop
  | integer {sign digits : List Char} : Sign sign → Digits 1 15 digits → Bare .integer (sign ++ digits)
  | decimal {sign whole fraction : List Char} : Sign sign → Digits 1 12 whole → Digits 1 3 fraction →
      Bare .decimal (sign ++ whole ++ '.' :: fraction)
  | string {chars : List Char} : (∀ c ∈ chars, visible c = true) → Bare .string ('"' :: chars.flatMap quoted ++ ['"'])
  | token {first : Char} {rest : List Char} : tokenStart first = true → (∀ c ∈ rest, tokenChar c = true) →
      Bare (.token (first :: rest)) (first :: rest)
  | byte_sequence {encoded : List Char} : (∀ c ∈ encoded, c.isAlphanum || "+/=".toList.contains c) →
      Bare .byte_sequence (':' :: encoded ++ [':'])
  | boolean {bit : Char} : bit = '0' ∨ bit = '1' → Bare .boolean ['?', bit]
  | date {sign digits : List Char} : Sign sign → Digits 1 15 digits → Bare .date ('@' :: (sign ++ digits))
  | display_string {content : List Char} : Displayed content → Bare .display_string ('%' :: '"' :: content ++ ['"'])

def Spaces (text : List Char) : Prop := ∀ c ∈ text, c = ' '

def Blanks (text : List Char) : Prop := ∀ c ∈ text, c = ' ' ∨ c = '\t'

inductive Parameters : List Kind → List Char → Prop
  | nil : Parameters [] []
  | flag {spaces key rest : List Char} {kinds : List Kind} : Spaces spaces → Key key → Parameters kinds rest →
      Parameters kinds (';' :: (spaces ++ (key ++ rest)))
  | valued {spaces key value rest : List Char} {kind : Kind} {kinds : List Kind} : Spaces spaces → Key key → Bare kind value →
      Parameters kinds rest → Parameters (kind :: kinds) (';' :: (spaces ++ (key ++ '=' :: (value ++ rest))))

inductive InnerList : List Char → Prop
  | close {spaces : List Char} : Spaces spaces → InnerList (spaces ++ [')'])
  | item {spaces value parameters rest : List Char} {kind : Kind} {kinds : List Kind} : Spaces spaces → Bare kind value →
      Parameters kinds parameters → InnerList rest → (rest.head? = some ' ' ∨ rest.head? = some ')') →
      InnerList (spaces ++ (value ++ (parameters ++ rest)))

inductive Value where
  | flag
  | item (kind : Kind)
  | inner_list
deriving DecidableEq

structure Member where
  key : List Char
  value : Value
  parameters : List Kind
deriving DecidableEq

inductive Written : Member → List Char → Prop
  | flag {key parameters : List Char} {kinds : List Kind} : Key key → Parameters kinds parameters →
      Written ⟨key, .flag, kinds⟩ (key ++ parameters)
  | item {key value parameters : List Char} {kind : Kind} {kinds : List Kind} : Key key → Bare kind value →
      Parameters kinds parameters → Written ⟨key, .item kind, kinds⟩ (key ++ '=' :: (value ++ parameters))
  | inner_list {key content parameters : List Char} {kinds : List Kind} : Key key → InnerList content →
      Parameters kinds parameters → Written ⟨key, .inner_list, kinds⟩ (key ++ '=' :: '(' :: (content ++ parameters))

inductive Members : List Member → List Char → Prop
  | last {member : Member} {text : List Char} : Written member text → Members [member] text
  | cons {member : Member} {members : List Member} {text before after rest : List Char} : Written member text →
      Blanks before → Blanks after → Members members rest →
      Members (member :: members) (text ++ (before ++ ',' :: (after ++ rest)))

inductive Dictionary : List Member → List Char → Prop
  | empty {spaces : List Char} : Spaces spaces → Dictionary [] spaces
  | members {spaces text blanks : List Char} {members : List Member} : Spaces spaces → Members members text →
      Blanks blanks → Dictionary members (spaces ++ (text ++ blanks))

def Solid (text : List Char) : Prop := ∃ front last, text = front ++ [last] ∧ last ≠ ' ' ∧ last ≠ '\t'

theorem Solid.after {text : List Char} (solid : Solid text) (front : List Char) : Solid (front ++ text) := by
  obtain ⟨inner, last, rfl, apart⟩ := solid
  exact ⟨front ++ inner, last, by simp, apart⟩

theorem Solid.cons {text : List Char} (solid : Solid text) (c : Char) : Solid (c :: text) := solid.after [c]

theorem solid_of {text : List Char} {p : Char → Bool} (some_ : text ≠ []) (all : ∀ c ∈ text, p c = true)
    (space : p ' ' = false) (tab : p '\t' = false) : Solid text := by
  obtain ⟨front, last, rfl⟩ := List.eq_nil_or_concat text |>.resolve_left some_
  have holds := all last (by simp)
  refine ⟨front, last, by simp, ?_, ?_⟩
  · rintro rfl
    rw [space] at holds
    cases holds
  · rintro rfl
    rw [tab] at holds
    cases holds

theorem Key.solid {key : List Char} (written : Key key) : Solid key := by
  obtain ⟨starts, all⟩ := written
  rename_i first rest
  have each : ∀ c ∈ first :: rest, (keyStart c || keyChar c) = true := by
    intro c member
    rcases List.mem_cons.mp member with rfl | later
    · simp [starts]
    · simp [all c later]
  exact solid_of (List.cons_ne_nil _ _) each (by decide) (by decide)

theorem Digits.solid {least most : Nat} {digits : List Char} (written : Digits (least + 1) most digits) : Solid digits := by
  obtain ⟨some_, _, all⟩ := written
  exact solid_of (List.ne_nil_of_length_pos (by omega)) all (by decide) (by decide)

theorem solid_char {front : List Char} {c : Char} (space : c ≠ ' ') (tab : c ≠ '\t') : Solid (front ++ [c]) :=
  ⟨front, c, rfl, space, tab⟩

theorem Bare.solid {kind : Kind} {text : List Char} (written : Bare kind text) : Solid text := by
  cases written with
  | integer _ digits => exact digits.solid.after _
  | decimal _ _ fraction => exact (fraction.solid.cons '.').after _
  | string _ => exact solid_char (by decide) (by decide)
  | @token first rest starts all =>
    have each : ∀ c ∈ first :: rest, (tokenStart c || tokenChar c) = true := by
      intro c member
      rcases List.mem_cons.mp member with rfl | later
      · simp [starts]
      · simp [all c later]
    exact solid_of (List.cons_ne_nil _ _) each (by decide) (by decide)
  | byte_sequence _ => exact solid_char (by decide) (by decide)
  | @boolean bit either =>
    have apart : bit ≠ ' ' ∧ bit ≠ '\t' := by rcases either with rfl | rfl <;> decide
    exact ⟨['?'], bit, rfl, apart.1, apart.2⟩
  | date _ digits => exact (digits.solid.after _).cons '@'
  | display_string _ => exact solid_char (by decide) (by decide)

theorem Parameters.solid {kinds : List Kind} {text : List Char} (written : Parameters kinds text) :
    text = [] ∨ Solid text := by
  induction written with
  | nil => exact Or.inl rfl
  | @flag spaces key rest kinds _ named _ ih =>
    refine Or.inr (Solid.cons (Solid.after ?_ spaces) ';')
    rcases ih with rfl | solid
    · simpa using named.solid
    · exact solid.after key
  | @valued spaces key value rest kind kinds _ _ item _ ih =>
    refine Or.inr (Solid.cons (Solid.after (Solid.after (Solid.cons ?_ '=') key) spaces) ';')
    rcases ih with rfl | solid
    · simpa using item.solid
    · exact solid.after value

theorem solid_parameters {kinds : List Kind} {text parameters : List Char} (solid : Solid text)
    (written : Parameters kinds parameters) : Solid (text ++ parameters) := by
  rcases written.solid with rfl | ends
  · simpa using solid
  · exact ends.after text

theorem InnerList.solid {text : List Char} (written : InnerList text) : Solid text := by
  induction written with
  | close _ => exact solid_char (by decide) (by decide)
  | item _ _ _ _ _ ih => exact ((ih.after _).after _).after _

theorem Written.solid {member : Member} {text : List Char} (written : Written member text) : Solid text := by
  cases written with
  | flag key parameters => exact solid_parameters key.solid parameters
  | item _ value parameters => exact ((solid_parameters value.solid parameters).cons '=').after _
  | inner_list _ content parameters => exact (((solid_parameters content.solid parameters).cons '(').cons '=').after _

theorem Members.solid {members : List Member} {text : List Char} (written : Members members text) : Solid text := by
  induction written with
  | last member => exact member.solid
  | cons _ _ _ _ ih => exact (((ih.after _).cons ',').after _).after _

end CommonMeasure.StructuredFields
