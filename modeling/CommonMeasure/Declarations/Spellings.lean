import CommonMeasure.Declarations.Robots

/-!
# Spellings of a target

A text is read as pieces, characters and percent-encodings, and its matching form is the forms of its pieces.
-/

namespace CommonMeasure.Declarations

def hexOf (c : Char) : Option Nat := if c.toNat < 128 then hexValue (UInt8.ofNat c.toNat) else none

def hexPair : Text → Bool
  | high :: low :: _ => (hexOf high).isSome && (hexOf low).isSome
  | _ => false

inductive Piece where
  | char (c : Char)
  | encoded (high low : Char)
deriving DecidableEq

def pieces : Text → List Piece
  | c :: high :: low :: rest =>
    if c = '%' ∧ hexPair [high, low] then .encoded high low :: pieces rest else .char c :: pieces (high :: low :: rest)
  | c :: rest => .char c :: pieces rest
  | [] => []

def octetOf (high low : Char) : UInt8 := UInt8.ofNat (16 * (hexOf high).getD 0 + (hexOf low).getD 0)

def octet_form (octet : UInt8) : Text := if is_unreserved octet then [Char.ofUInt8 octet] else push_encoded octet

def Piece.form : Piece → Text
  | .char c => (String.utf8EncodeChar c).flatMap matching_octet
  | .encoded high low => octet_form (octetOf high low)

/-! ### The pieces of a text give its form -/

theorem encode_ascii {c : Char} (ascii : c.toNat < 128) : String.utf8EncodeChar c = [UInt8.ofNat c.toNat] := by
  have small : c.val.toNat ≤ 127 := by
    have : c.toNat = c.val.toNat := rfl
    omega
  rw [String.utf8EncodeChar]
  simp only [if_pos small]
  rfl

theorem encode_other {c : Char} (other : ¬c.toNat < 128) : ∀ b ∈ String.utf8EncodeChar c, 128 ≤ b := by
  have large : ¬c.val.toNat ≤ 127 := by
    have : c.toNat = c.val.toNat := rfl
    omega
  have high (n : Nat) (least : 128 ≤ n % 256) : (128 : UInt8) ≤ UInt8.ofNat n := by
    rw [UInt8.le_iff_toNat_le]
    simpa using least
  rw [String.utf8EncodeChar]
  simp only [if_neg large]
  split
  · simp only [List.mem_cons, List.not_mem_nil, or_false, forall_eq_or_imp, forall_eq]
    exact ⟨high _ (by omega), high _ (by omega)⟩
  · split
    · simp only [List.mem_cons, List.not_mem_nil, or_false, forall_eq_or_imp, forall_eq]
      exact ⟨high _ (by omega), high _ (by omega), high _ (by omega)⟩
    · simp only [List.mem_cons, List.not_mem_nil, or_false, forall_eq_or_imp, forall_eq]
      exact ⟨high _ (by omega), high _ (by omega), high _ (by omega), high _ (by omega)⟩

theorem hexValue_other {b : UInt8} (other : 128 ≤ b) : hexValue b = none := by
  rw [UInt8.le_iff_toNat_le] at other
  have value : (128 : UInt8).toNat = 128 := rfl
  have apart : ¬(48 ≤ b ∧ b ≤ 57) ∧ ¬(65 ≤ b ∧ b ≤ 70) ∧ ¬(97 ≤ b ∧ b ≤ 102) := by
    simp only [UInt8.le_iff_toNat_le]
    refine ⟨?_, ?_, ?_⟩
    all_goals
      rintro ⟨_, small⟩
      have bound : b.toNat ≤ 102 := Nat.le_trans small (by decide)
      omega
  rw [hexValue, if_neg apart.1, if_neg apart.2.1, if_neg apart.2.2]

theorem hexOf_encode (c : Char) : ∃ b rest, String.utf8EncodeChar c = b :: rest ∧ hexValue b = hexOf c ∧
    ((hexOf c).isSome → rest = []) := by
  by_cases ascii : c.toNat < 128
  · exact ⟨_, [], encode_ascii ascii, by rw [hexOf, if_pos ascii], fun _ => rfl⟩
  · obtain ⟨b, rest, is⟩ := List.exists_cons_of_ne_nil (@String.utf8EncodeChar_ne_nil c)
    have large := encode_other ascii b (is ▸ List.mem_cons_self)
    refine ⟨b, rest, is, ?_, ?_⟩
    · rw [hexValue_other large, hexOf, if_neg ascii]
    · rw [hexOf, if_neg ascii]
      nofun

def octetPair : List UInt8 → Bool
  | high :: low :: _ => (hexValue high).isSome && (hexValue low).isSome
  | _ => false

theorem octetPair_encode (text : Text) : octetPair (text.flatMap String.utf8EncodeChar) = hexPair text := by
  match text with
  | [] => rfl
  | [a] =>
    obtain ⟨b, rest, is, value, whole⟩ := hexOf_encode a
    rw [List.flatMap_cons, is, List.flatMap_nil, List.append_nil, hexPair]
    · cases rest with
      | nil => rfl
      | cons next rest =>
        have none_ : hexOf a = none := by
          by_contra some_
          cases whole (Option.isSome_iff_ne_none.mpr some_)
        rw [octetPair, value, none_]
        rfl
    · nofun
  | a :: c :: rest =>
    obtain ⟨b, more, is, value, whole⟩ := hexOf_encode a
    obtain ⟨d, others, isToo, valueToo, _⟩ := hexOf_encode c
    rw [List.flatMap_cons, List.flatMap_cons, is, isToo, hexPair]
    cases digit : hexOf a with
    | none =>
      rw [digit] at value
      cases more with
      | nil =>
        rw [List.cons_append, List.nil_append, List.cons_append, octetPair, value]
        rfl
      | cons next more =>
        rw [List.cons_append, List.cons_append, octetPair, value]
        rfl
    | some n =>
      rw [digit] at value
      obtain rfl := whole (by simp [digit])
      rw [List.cons_append, List.nil_append, List.cons_append, octetPair, value, valueToo]

theorem encoded_none {byte high low : UInt8} (apart : byte ≠ 37 ∨ ((hexValue high).isSome && (hexValue low).isSome) = false) :
    encoded byte high low = none := by
  unfold encoded
  split
  · rename_i percent
    have digits := apart.resolve_left (not_not.mpr percent)
    cases one : hexValue high with
    | none => rfl
    | some n =>
      cases other : hexValue low with
      | none => rfl
      | some m => simp [one, other] at digits
  · rfl

theorem matching_octets_cons {byte : UInt8} {rest : List UInt8} (apart : byte ≠ 37 ∨ octetPair rest = false) :
    matching_octets (byte :: rest) = matching_octet byte ++ matching_octets rest := by
  match rest with
  | [] => rw [matching_octets]; nofun
  | [one] => rw [matching_octets]; nofun
  | high :: low :: rest => rw [matching_octets, encoded_none apart]

theorem matching_octets_plain_append {bytes rest : List UInt8} (apart : ∀ b ∈ bytes, b ≠ 37) :
    matching_octets (bytes ++ rest) = bytes.flatMap matching_octet ++ matching_octets rest := by
  induction bytes with
  | nil => rfl
  | cons b bytes ih =>
    obtain ⟨first, others⟩ := List.forall_mem_cons.mp apart
    rw [List.cons_append, matching_octets_cons (Or.inl first), ih others, List.flatMap_cons, List.append_assoc]

theorem matching_target_cons {c : Char} {rest : Text} (apart : c ≠ '%' ∨ hexPair rest = false) :
    matching_target (c :: rest) = (Piece.char c).form ++ matching_target rest := by
  rw [matching_target, List.flatMap_cons, Piece.form]
  by_cases ascii : c.toNat < 128
  · have percent : c ≠ '%' ∨ octetPair (rest.flatMap String.utf8EncodeChar) = false := by rwa [octetPair_encode]
    have octets : UInt8.ofNat c.toNat ≠ 37 ∨ octetPair (rest.flatMap String.utf8EncodeChar) = false := by
      refine percent.imp_left ?_
      intro other same
      apply other
      have value := congrArg UInt8.toNat same
      simp only [UInt8.toNat_ofNat'] at value
      apply Char.toNat_inj.mp
      show c.toNat = 37
      have small : c.toNat % 256 = c.toNat := Nat.mod_eq_of_lt (by omega)
      have thirtySeven : (37 : UInt8).toNat = 37 := rfl
      omega
    rw [encode_ascii ascii, List.cons_append, List.nil_append, matching_octets_cons octets, List.flatMap_cons, List.flatMap_nil,
      List.append_nil]
    rfl
  · apply matching_octets_plain_append
    intro b member percent
    have large := encode_other ascii b member
    rw [percent] at large
    exact absurd large (by decide)

theorem matching_target_encoded {high low : Char} (digits : hexPair [high, low] = true) (rest : Text) :
    matching_target ('%' :: high :: low :: rest) = octet_form (octetOf high low) ++ matching_target rest := by
  simp only [hexPair, Bool.and_eq_true] at digits
  obtain ⟨b, more, is, value, whole⟩ := hexOf_encode high
  obtain ⟨d, others, isToo, valueToo, wholeToo⟩ := hexOf_encode low
  obtain ⟨n, one⟩ := Option.isSome_iff_exists.mp digits.1
  obtain ⟨m, other⟩ := Option.isSome_iff_exists.mp digits.2
  obtain rfl := whole digits.1
  obtain rfl := wholeToo digits.2
  have percent : String.utf8EncodeChar '%' = [37] := by decide
  rw [matching_target, List.flatMap_cons, List.flatMap_cons, List.flatMap_cons, percent, is, isToo]
  simp only [List.cons_append, List.nil_append]
  have names : encoded 37 b d = some (octetOf high low) := by
    simp [encoded, value, valueToo, one, other, octetOf]
  rw [matching_octets, names]
  rfl

theorem matching_target_pieces (text : Text) : matching_target text = (pieces text).flatMap Piece.form := by
  fun_induction pieces text with
  | case1 c high low rest starts ih =>
    obtain ⟨rfl, digits⟩ := starts
    rw [matching_target_encoded digits, ih]
    rfl
  | case2 c high low rest apart ih =>
    have other : c ≠ '%' ∨ hexPair (high :: low :: rest) = false := by
      by_cases percent : c = '%'
      · refine Or.inr (Bool.eq_false_of_not_eq_true ?_)
        intro digits
        exact apart ⟨percent, digits⟩
      · exact Or.inl percent
    rw [matching_target_cons other, ih]
    rfl
  | case3 c rest short ih =>
    have few : hexPair rest = false := by
      match rest with
      | [] => rfl
      | [one] => rfl
      | high :: low :: rest => exact (short high low rest rfl).elim
    rw [matching_target_cons (Or.inr few), ih]
    rfl
  | case4 => rfl

theorem pieces_cons {c : Char} {rest : Text} (apart : c ≠ '%' ∨ hexPair rest = false) :
    pieces (c :: rest) = .char c :: pieces rest := by
  match rest with
  | [] => rw [pieces]; nofun
  | [one] => rw [pieces]; nofun
  | high :: low :: rest =>
    rw [pieces, if_neg]
    rintro ⟨percent, digits⟩
    rcases apart with other | none_
    · exact other percent
    · rw [hexPair] at digits none_
      rw [digits] at none_
      cases none_

theorem pieces_encoded {high low : Char} (digits : hexPair [high, low] = true) (rest : Text) :
    pieces ('%' :: high :: low :: rest) = .encoded high low :: pieces rest := by
  rw [pieces, if_pos ⟨rfl, digits⟩]

theorem hexPair_append {text after : Text} (apart : ∀ c ∈ after.head?, hexOf c = none) :
    hexPair (text ++ after) = hexPair text := by
  match text with
  | [] =>
    match after with
    | [] => rfl
    | [one] => rfl
    | one :: next :: after =>
      rw [List.nil_append, hexPair, apart one rfl]
      rfl
  | [one] =>
    match after with
    | [] => rfl
    | next :: after =>
      rw [List.cons_append, List.nil_append, hexPair, apart next rfl]
      simp [hexPair]
  | one :: next :: text => rfl

theorem pieces_append (before : Text) {after : Text} (apart : ∀ c ∈ after.head?, hexOf c = none) :
    pieces (before ++ after) = pieces before ++ pieces after := by
  fun_induction pieces before with
  | case1 c high low rest starts ih =>
    obtain ⟨rfl, digits⟩ := starts
    rw [List.cons_append, List.cons_append, List.cons_append, pieces_encoded digits, ih]
    rfl
  | case2 c high low rest other ih =>
    have plain : c ≠ '%' ∨ hexPair (high :: low :: rest ++ after) = false := by
      by_cases percent : c = '%'
      · refine Or.inr (Bool.eq_false_of_not_eq_true fun digits => other ⟨percent, digits⟩)
      · exact Or.inl percent
    rw [List.cons_append, pieces_cons plain, ih]
    rfl
  | case3 c rest short ih =>
    have few : hexPair (rest ++ after) = false := by
      rw [hexPair_append apart]
      match rest with
      | [] => rfl
      | [one] => rfl
      | high :: low :: rest => exact (short high low rest rfl).elim
    rw [List.cons_append, pieces_cons (Or.inr few), ih]
    rfl
  | case4 => rfl

theorem hexOf_percent : hexOf '%' = none := by decide

def Piece.text : Piece → Text
  | .char c => [c]
  | .encoded high low => ['%', high, low]

theorem pieces_text (text : Text) : (pieces text).flatMap Piece.text = text := by
  fun_induction pieces text with
  | case1 c high low rest starts ih =>
    rw [List.flatMap_cons, ih, starts.1]
    rfl
  | case2 c high low rest other ih =>
    rw [List.flatMap_cons, ih]
    rfl
  | case3 c rest short ih =>
    rw [List.flatMap_cons, ih]
    rfl
  | case4 => rfl

/-- One piece of a text respelt: an unreserved octet encoded, the case of an encoding's digits, or one of the marks encoded. -/
inductive Respelling (marks : List Char) : Text → Text → Prop
  | unreserved (before after : Text) {high low : Char} : hexPair [high, low] = true →
      is_unreserved (octetOf high low) = true →
      pieces (before ++ Char.ofUInt8 (octetOf high low) :: after) =
        pieces before ++ .char (Char.ofUInt8 (octetOf high low)) :: pieces after →
      Respelling marks (before ++ Char.ofUInt8 (octetOf high low) :: after) (before ++ '%' :: high :: low :: after)
  | hex_case (before after : Text) {high low other next : Char} : hexPair [high, low] = true →
      hexOf other = hexOf high → hexOf next = hexOf low →
      Respelling marks (before ++ '%' :: high :: low :: after) (before ++ '%' :: other :: next :: after)
  | mark (before after : Text) {high low : Char} : hexPair [high, low] = true → Char.ofUInt8 (octetOf high low) ∈ marks →
      Respelling marks (before ++ Char.ofUInt8 (octetOf high low) :: after) (before ++ '%' :: high :: low :: after)

def Respelt (marks : List Char) : Text → Text → Prop := Relation.EqvGen (Respelling marks)

theorem ofUInt8_toNat (octet : UInt8) : (Char.ofUInt8 octet).toNat = octet.toNat := by simp [Char.ofUInt8, Char.toNat]

theorem ofUInt8_injective {a b : UInt8} (same : Char.ofUInt8 a = Char.ofUInt8 b) : a = b := by
  have values := congrArg Char.toNat same
  rw [ofUInt8_toNat, ofUInt8_toNat] at values
  exact UInt8.toNat_inj.mp values

theorem octet_small {octet : UInt8} (kept : (is_unreserved octet || is_reserved octet) = true) : octet.toNat < 128 := by
  have all : ∀ b : Fin 256, (is_unreserved (UInt8.ofFin b) || is_reserved (UInt8.ofFin b)) = true → b.val < 128 := by
    decide +kernel
  exact all octet.toFin kept

theorem char_form {octet : UInt8} (small : octet.toNat < 128) : (Piece.char (Char.ofUInt8 octet)).form = matching_octet octet := by
  have ascii : (Char.ofUInt8 octet).toNat < 128 := by rwa [ofUInt8_toNat]
  rw [Piece.form, encode_ascii ascii, ofUInt8_toNat]
  simp

theorem kept_form {octet : UInt8} (kept : (is_unreserved octet || is_reserved octet) = true)
    (mark : ¬(octet = 42 ∨ octet = 36 ∨ octet = 37)) :
    Char.ofUInt8 octet ≠ '%' ∧ (Piece.char (Char.ofUInt8 octet)).form = [Char.ofUInt8 octet] := by
  constructor
  · intro sign
    exact mark (Or.inr (Or.inr (@ofUInt8_injective octet 37 sign)))
  · rw [char_form (octet_small kept), matching_octet, if_neg mark, if_pos kept]

theorem unreserved_unmarked {octet : UInt8} (unreserved : is_unreserved octet = true) :
    ¬(octet = 42 ∨ octet = 36 ∨ octet = 37) := by
  rintro (rfl | rfl | rfl) <;> cases unreserved

theorem unreserved_form {octet : UInt8} (unreserved : is_unreserved octet = true) :
    (Piece.char (Char.ofUInt8 octet)).form = octet_form octet := by
  rw [(kept_form (by simp [unreserved]) (unreserved_unmarked unreserved)).2, octet_form, if_pos unreserved]

theorem unreserved_apart {octet : UInt8} (unreserved : is_unreserved octet = true) :
    Char.ofUInt8 octet ≠ '*' ∧ Char.ofUInt8 octet ≠ '$' := by
  constructor
  · intro star
    exact unreserved_unmarked unreserved (Or.inl (@ofUInt8_injective octet 42 star))
  · intro dollar
    exact unreserved_unmarked unreserved (Or.inr (Or.inl (@ofUInt8_injective octet 36 dollar)))

theorem mark_form {octet : UInt8} (mark : Char.ofUInt8 octet = '*' ∨ Char.ofUInt8 octet = '$') :
    (Piece.char (Char.ofUInt8 octet)).form = octet_form octet ∧ hexOf (Char.ofUInt8 octet) = none := by
  rcases mark with star | dollar
  · obtain rfl := @ofUInt8_injective octet 42 star
    decide
  · obtain rfl := @ofUInt8_injective octet 36 dollar
    decide

def Piece.isMark (piece : Piece) : Prop := piece = .char '*' ∨ piece = .char '$'

theorem Respelling.pieces {marks : List Char} (only : ∀ c ∈ marks, c = '*' ∨ c = '$') {a b : Text}
    (respelling : Respelling marks a b) :
    ∃ before after old new, pieces a = before ++ old :: after ∧ pieces b = before ++ new :: after ∧ old.form = new.form ∧
      (marks = [] → ¬old.isMark ∧ ¬new.isMark) := by
  have percent (before after : Text) {high low : Char} (digits : hexPair [high, low] = true) :
      Declarations.pieces (before ++ '%' :: high :: low :: after) =
        Declarations.pieces before ++ .encoded high low :: Declarations.pieces after := by
    rw [pieces_append before (by simp [hexOf_percent]), pieces_encoded digits]
  have encoded {high low : Char} : ¬(Piece.encoded high low).isMark := by simp [Piece.isMark]
  cases respelling with
  | unreserved before after digits unreserved stands =>
    refine ⟨_, _, _, _, stands, percent before after digits, unreserved_form unreserved, ?_⟩
    rintro -
    refine ⟨?_, encoded⟩
    rintro (star | dollar)
    · exact (unreserved_apart unreserved).1 (Piece.char.inj star)
    · exact (unreserved_apart unreserved).2 (Piece.char.inj dollar)
  | hex_case before after digits high low =>
    rename_i a b c d
    have digitsToo : hexPair [c, d] = true := by
      rw [hexPair] at digits ⊢
      rwa [high, low]
    refine ⟨_, _, _, _, percent before after digits, percent before after digitsToo, ?_, fun _ => ⟨encoded, encoded⟩⟩
    simp only [Piece.form, octetOf, high, low]
  | mark before after digits member =>
    obtain ⟨form, apart⟩ := mark_form (only _ member)
    refine ⟨_, _, _, _, ?_, percent before after digits, form, ?_⟩
    · rw [pieces_append before (by simp [apart]), pieces_cons]
      refine Or.inl ?_
      rcases only _ member with star | dollar
      · rw [star]
        decide
      · rw [dollar]
        decide
    · rintro rfl
      cases member

theorem Respelt.target {a b : Text} (respelt : Respelt ['*', '$'] a b) : matching_target a = matching_target b := by
  induction respelt with
  | rel a b respelling =>
    obtain ⟨before, after, old, new, is, isToo, form, _⟩ := respelling.pieces (by simp)
    rw [matching_target_pieces, matching_target_pieces, is, isToo]
    simp [form]
  | refl a => rfl
  | symm a b _ ih => exact ih.symm
  | trans a b c _ _ first second => exact first.trans second

/-! ### The form of a pattern -/

/-- A piece of a pattern: a `*` is kept. -/
def Piece.pattern_form (piece : Piece) : Text := if piece = .char '*' then ['*'] else piece.form

theorem pieces_star_free {text : Text} (free : '*' ∉ text) : Piece.char '*' ∉ pieces text := by
  fun_induction pieces text with
  | case1 c high low rest starts ih =>
    simp only [List.mem_cons, not_or] at free
    simpa using ih free.2.2.2
  | case2 c high low rest other ih =>
    simp only [List.mem_cons, not_or] at free ih
    simp only [List.mem_cons, Piece.char.injEq, not_or]
    exact ⟨free.1, ih free.2⟩
  | case3 c rest short ih =>
    simp only [List.mem_cons, not_or] at free
    simp only [List.mem_cons, Piece.char.injEq, not_or]
    exact ⟨free.1, ih free.2⟩
  | case4 => simp

theorem pattern_form_free {ps : List Piece} (free : Piece.char '*' ∉ ps) :
    ps.flatMap Piece.pattern_form = ps.flatMap Piece.form := by
  induction ps with
  | nil => rfl
  | cons piece ps ih =>
    simp only [List.mem_cons, not_or] at free
    rw [List.flatMap_cons, List.flatMap_cons, ih free.2, Piece.pattern_form, if_neg (Ne.symm free.1)]

theorem splitOn_free {separator : Char} {text part : Text} (listed : part ∈ text.splitOn separator) : separator ∉ part := by
  induction text generalizing part with
  | nil => simp_all
  | cons c text ih =>
    obtain ⟨first, middle, cut, _⟩ := glob_splitOn separator text
    rw [cut] at ih
    rw [List.splitOn_cons_eq_if_modifyHead, cut] at listed
    split at listed
    · rcases List.mem_cons.mp listed with rfl | later
      · simp
      · exact ih later
    · rename_i other
      rcases List.mem_cons.mp listed with rfl | later
      · simp only [List.mem_cons, not_or]
        refine ⟨?_, ih List.mem_cons_self⟩
        rintro rfl
        simp at other
      · exact ih (List.mem_cons_of_mem _ later)

theorem pieces_between (before after : Text) : pieces (before ++ '*' :: after) = pieces before ++ .char '*' :: pieces after := by
  rw [pieces_append before (by simp; decide), pieces_cons (Or.inl (by decide))]

theorem parts_pieces (text : Text) :
    ['*'].intercalate ((text.splitOn '*').map matching_target) = (pieces text).flatMap Piece.pattern_form := by
  have all (parts : List Text) (free : ∀ part ∈ parts, '*' ∉ part) :
      ['*'].intercalate (parts.map matching_target) = (pieces (['*'].intercalate parts)).flatMap Piece.pattern_form := by
    induction parts with
    | nil => rfl
    | cons part parts ih =>
      obtain ⟨first, others⟩ := List.forall_mem_cons.mp free
      have own : matching_target part = (pieces part).flatMap Piece.pattern_form := by
        rw [matching_target_pieces, pattern_form_free (pieces_star_free first)]
      cases parts with
      | nil => simpa [List.intercalate] using own
      | cons next parts =>
        have later := ih others
        rw [List.map_cons, List.map_cons, List.intercalate_cons_cons, List.intercalate_cons_cons, ← List.map_cons, later, own]
        have star : Piece.pattern_form (.char '*') = ['*'] := rfl
        have between : part ++ ['*'] ++ ['*'].intercalate (next :: parts) =
            part ++ '*' :: ['*'].intercalate (next :: parts) := by simp
        rw [between, pieces_between]
        simp [star]
  rw [all _ fun part listed => splitOn_free listed, List.intercalate_splitOn]

theorem pieces_anchor (text : Text) :
    matching_pattern text =
      if (pieces text).getLast? = some (.char '$') then ((pieces text).dropLast.flatMap Piece.pattern_form) ++ ['$']
      else (pieces text).flatMap Piece.pattern_form := by
  rcases List.eq_nil_or_concat text with rfl | ⟨literal, last, rfl⟩
  · rfl
  · rw [List.concat_eq_append]
    by_cases dollar : last = '$'
    · subst dollar
      have cut : pieces (literal ++ ['$']) = pieces literal ++ [.char '$'] := by
        rw [pieces_append literal (by simp; decide)]
        rfl
      have strip : strip_suffix '$' (literal ++ ['$']) = some literal := by simp [strip_suffix]
      rw [cut, matching_pattern, strip]
      simp [parts_pieces]
    · have strip : strip_suffix '$' (literal ++ [last]) = none := by simp [strip_suffix, dollar]
      have other : (pieces (literal ++ [last])).getLast? ≠ some (.char '$') := by
        intro ends
        obtain ⟨before, is⟩ := List.getLast?_eq_some_iff.mp ends
        have whole := pieces_text (literal ++ [last])
        rw [is, List.flatMap_append] at whole
        have same := (List.append_inj' whole rfl).2
        exact dollar (List.singleton_inj.mp same).symm
      rw [if_neg other, matching_pattern, strip]
      exact parts_pieces _

theorem Respelt.pattern {a b : Text} (respelt : Respelt [] a b) : matching_pattern a = matching_pattern b := by
  induction respelt with
  | rel a b respelling =>
    obtain ⟨before, after, old, new, is, isToo, form, apart⟩ := respelling.pieces (by simp)
    obtain ⟨oldApart, newApart⟩ := apart rfl
    simp only [Piece.isMark, not_or] at oldApart newApart
    have same : old.pattern_form = new.pattern_form := by
      rw [Piece.pattern_form, if_neg oldApart.1, Piece.pattern_form, if_neg newApart.1, form]
    rw [pieces_anchor, pieces_anchor, is, isToo]
    rcases List.eq_nil_or_concat after with rfl | ⟨inner, last, rfl⟩
    · simp [oldApart.2, newApart.2, same]
    · simp only [List.concat_eq_append, ← List.cons_append, ← List.append_assoc, List.getLast?_append, List.dropLast_concat]
      simp [same]
  | refl a => rfl
  | symm a b _ ih => exact ih.symm
  | trans a b c _ _ first second => exact first.trans second

/-- A text in the matching form: unreserved and reserved characters but the marks, and encodings of other octets in upper
case. -/
inductive Formed : Text → Prop
  | nil : Formed []
  | char {c : Char} {rest : Text} : c ≠ '%' → (Piece.char c).form = [c] → Formed rest → Formed (c :: rest)
  | encoded (octet : UInt8) {rest : Text} : is_unreserved octet = false → Formed rest → Formed (push_encoded octet ++ rest)

theorem Formed.append {a b : Text} (first : Formed a) (second : Formed b) : Formed (a ++ b) := by
  induction first with
  | nil => exact second
  | char apart form _ ih => exact .char apart form ih
  | encoded octet other _ ih =>
    rw [List.append_assoc]
    exact .encoded octet other ih

theorem hexOf_HEX : ∀ n < 16, hexOf (HEX.getD n '0') = some n := by decide

theorem push_encoded_pair (octet : UInt8) : ∃ high low, push_encoded octet = ['%', high, low] ∧ hexPair [high, low] = true ∧
    octetOf high low = octet := by
  refine ⟨_, _, rfl, ?_⟩
  have size : octet.toNat < 256 := octet.toNat_lt
  have high := hexOf_HEX (octet.toNat / 16) (by omega)
  have low := hexOf_HEX (octet.toNat % 16) (by omega)
  refine ⟨by simp only [hexPair, high, low, Option.isSome_some, Bool.and_self], ?_⟩
  rw [octetOf, high, low]
  apply UInt8.toNat_inj.mp
  simp only [Option.getD_some, UInt8.toNat_ofNat']
  omega

theorem Formed.fixed {text : Text} (formed : Formed text) : matching_target text = text := by
  induction formed with
  | nil => rfl
  | char apart form _ ih =>
    rw [matching_target_cons (Or.inl apart), form, ih]
    rfl
  | encoded octet other _ ih =>
    obtain ⟨high, low, is, digits, value⟩ := push_encoded_pair octet
    rw [is]
    simp only [List.cons_append, List.nil_append]
    rw [matching_target_encoded digits, value, ih, octet_form, other, if_neg Bool.false_ne_true, is]
    rfl

theorem matching_octet_formed (byte : UInt8) : Formed (matching_octet byte) := by
  have whole (octet : UInt8) (other : is_unreserved octet = false) : Formed (push_encoded octet) := by
    have formed := Formed.encoded octet other .nil
    rwa [List.append_nil] at formed
  unfold matching_octet
  split
  · rename_i mark
    apply whole
    rcases mark with rfl | rfl | rfl
    all_goals rfl
  · rename_i mark
    split
    · rename_i allowed
      obtain ⟨apart, form⟩ := kept_form allowed mark
      exact .char apart form .nil
    · rename_i other
      apply whole
      simp only [Bool.or_eq_true, not_or] at other
      exact Bool.eq_false_of_not_eq_true other.1

theorem Piece.form_formed (piece : Piece) : Formed piece.form := by
  cases piece with
  | char c =>
    have all (bytes : List UInt8) : Formed (bytes.flatMap matching_octet) := by
      induction bytes with
      | nil => exact .nil
      | cons b bytes ih => exact (matching_octet_formed b).append ih
    exact all _
  | encoded high low =>
    rw [Piece.form, octet_form]
    split
    · rename_i unreserved
      obtain ⟨apart, form⟩ := kept_form (by simp [unreserved]) (unreserved_unmarked unreserved)
      exact .char apart form .nil
    · rename_i other
      have formed := Formed.encoded (octetOf high low) (Bool.eq_false_of_not_eq_true other) .nil
      rwa [List.append_nil] at formed

theorem matching_target_formed (text : Text) : Formed (matching_target text) := by
  rw [matching_target_pieces]
  induction pieces text with
  | nil => exact .nil
  | cons piece ps ih => exact piece.form_formed.append ih

theorem matching_target_idempotent (text : Text) : matching_target (matching_target text) = matching_target text :=
  (matching_target_formed text).fixed

def literals (pattern : Text) : List Text := (((strip_suffix '$' pattern).getD pattern).splitOn '*').map matching_target

def anchored (pattern : Text) : Bool := (strip_suffix '$' pattern).isSome

theorem matching_pattern_literals (pattern : Text) :
    matching_pattern pattern = ['*'].intercalate (literals pattern) ++ if anchored pattern then ['$'] else [] := by
  unfold matching_pattern literals anchored
  cases strip_suffix '$' pattern <;> simp

theorem literals_apart (pattern : Text) : ∀ part ∈ literals pattern, '*' ∉ part ∧ '$' ∉ part := by
  intro part listed
  obtain ⟨written, _, rfl⟩ := List.mem_map.mp listed
  exact ⟨fun member => (matching_target_plain written _ member).2.1 rfl, fun member =>
    (matching_target_plain written _ member).2.2 rfl⟩

theorem literals_nonempty (pattern : Text) : literals pattern ≠ [] := by
  simp [literals, List.splitOn_ne_nil]

theorem mem_intercalate {parts : List Text} {c : Char} (member : c ∈ ['*'].intercalate parts) :
    c = '*' ∨ ∃ part ∈ parts, c ∈ part := by
  induction parts with
  | nil => cases member
  | cons part parts ih =>
    cases parts with
    | nil => exact Or.inr ⟨part, List.mem_cons_self, by simpa using member⟩
    | cons next parts =>
      rw [List.intercalate_cons_cons, List.mem_append, List.mem_append, List.mem_singleton] at member
      rcases member with (here | star) | later
      · exact Or.inr ⟨part, List.mem_cons_self, here⟩
      · exact Or.inl star
      · rcases ih later with star | ⟨other, listed, inside⟩
        · exact Or.inl star
        · exact Or.inr ⟨other, List.mem_cons_of_mem _ listed, inside⟩

theorem strip_form (pattern : Text) :
    strip_suffix '$' (matching_pattern pattern) =
      if anchored pattern then some (['*'].intercalate (literals pattern)) else none := by
  rw [matching_pattern_literals]
  cases anchored pattern with
  | true => simp [strip_suffix]
  | false =>
    simp only [Bool.false_eq_true, if_false, List.append_nil]
    rw [strip_suffix, if_neg]
    intro dollar
    rcases mem_intercalate (List.mem_of_getLast? dollar) with star | ⟨part, listed, inside⟩
    · cases star
    · exact (literals_apart pattern part listed).2 inside

theorem splitOn_form (pattern : Text) : (['*'].intercalate (literals pattern)).splitOn '*' = literals pattern :=
  List.splitOn_intercalate '*' (fun part listed => (literals_apart pattern part listed).1) (literals_nonempty pattern)

theorem literals_fixed (pattern : Text) : (literals pattern).map matching_target = literals pattern := by
  rw [literals, List.map_map]
  apply List.map_congr_left
  intro part _
  exact matching_target_idempotent part

theorem matching_pattern_idempotent (pattern : Text) : matching_pattern (matching_pattern pattern) = matching_pattern pattern := by
  have strip := strip_form pattern
  have form := matching_pattern_literals pattern
  cases ends : anchored pattern with
  | true =>
    rw [ends, if_pos rfl] at strip form
    rw [matching_pattern, strip, form]
    simp only [splitOn_form, literals_fixed]
  | false =>
    rw [ends, if_neg Bool.false_ne_true, ] at strip form
    rw [List.append_nil] at form
    rw [matching_pattern, strip, form]
    simp only [splitOn_form, literals_fixed]

/-- A target splits into a pattern's literal parts in order, with anything between them, the first at the start and, where
the pattern is anchored, the last at the end. -/
def Splits (pattern target : Text) : Prop :=
  ∃ first, ∃ gaps : List (Text × Text), ∃ tail, literals pattern = first :: gaps.map Prod.snd ∧
    matching_target target = first ++ gaps.flatMap (fun gap => gap.1 ++ gap.2) ++ tail ∧ (anchored pattern = true → tail = [])

theorem glob_form (pattern : Text) : ∃ first rest, literals pattern = first :: rest ∧
    glob (matching_pattern pattern) = first.map some ++ (runs rest ++ if anchored pattern then [] else [none]) := by
  obtain ⟨first, rest, cut, same⟩ := glob_splitOn '*' (['*'].intercalate (literals pattern))
  rw [splitOn_form] at cut
  refine ⟨first, rest, cut, ?_⟩
  have strip := strip_form pattern
  have form := matching_pattern_literals pattern
  unfold glob
  cases ends : anchored pattern with
  | true =>
    rw [ends, if_pos rfl] at strip
    rw [strip]
    simp [← same]
  | false =>
    rw [ends, if_neg Bool.false_ne_true] at strip form
    rw [List.append_nil] at form
    rw [strip, form]
    simp [← same]

theorem matches_pattern_iff {pattern target : Text} : matches_pattern pattern target = true ↔ Splits pattern target := by
  obtain ⟨first, rest, parts, form⟩ := glob_form pattern
  rw [matches_pattern, matches_form_iff, form, fills_literals]
  unfold Splits
  rw [parts]
  simp only [fills_parts, List.cons.injEq]
  constructor
  · rintro ⟨after, split, gaps, tail, listed, rfl, ends⟩
    refine ⟨first, gaps, tail, ⟨rfl, listed⟩, by rw [split, List.append_assoc], ?_⟩
    intro anchor
    rw [if_pos anchor] at ends
    exact fills_nil.mp ends
  · rintro ⟨_, gaps, tail, ⟨rfl, listed⟩, split, ends⟩
    refine ⟨_, by rw [split, List.append_assoc], gaps, tail, listed, rfl, ?_⟩
    split
    · rename_i anchor
      exact fills_nil.mpr (ends anchor)
    · exact fills_open tail

/-- What a pattern matches, and that its spelling and the target's decide nothing. -/
theorem matches_pattern_spellings :
    (∀ pattern target, matches_pattern pattern target = true ↔ Splits pattern target) ∧
    (∀ target, matching_target (matching_target target) = matching_target target) ∧
    (∀ pattern, matching_pattern (matching_pattern pattern) = matching_pattern pattern) ∧
    (∀ target other, Respelt ['*', '$'] target other → ∀ pattern, matches_pattern pattern target = matches_pattern pattern other) ∧
    (∀ pattern other, Respelt [] pattern other →
      (∀ target, matches_pattern pattern target = matches_pattern other target) ∧
      ∀ allow, (AccessRule.mk allow pattern).rank = (AccessRule.mk allow other).rank) := by
  refine ⟨fun _ _ => matches_pattern_iff, matching_target_idempotent, matching_pattern_idempotent, ?_, ?_⟩
  · intro target other respelt pattern
    rw [matches_pattern, respelt.target, matches_pattern]
  · intro pattern other respelt
    refine ⟨fun target => ?_, fun allow => ?_⟩
    · rw [matches_pattern, respelt.pattern, matches_pattern]
    · rw [AccessRule.rank, AccessRule.form, respelt.pattern]
      rfl

/-- Decoding the `4` of `%%341` writes an encoding that was not there. -/
theorem decoded_spelling_differs :
    octetOf '3' '4' = 52 ∧ is_unreserved 52 = true ∧
      pieces "/%%341".toList = [.char '/', .char '%', .encoded '3' '4', .char '1'] ∧
      matches_pattern "/A".toList "/%%341".toList = false ∧ matches_pattern "/A".toList "/%41".toList = true ∧
      (AccessRule.mk false "/%%341".toList).rank ≠ (AccessRule.mk false "/%41".toList).rank := by
  decide

end CommonMeasure.Declarations
