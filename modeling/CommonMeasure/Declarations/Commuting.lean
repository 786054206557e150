import CommonMeasure.Declarations.Reached
import CommonMeasure.Declarations.Spellings

/-!
# The operations and the matching form

Each of the four operations commutes with the matching form, on the paths that a parsed URL carries.
-/

namespace CommonMeasure.Declarations

/-! ### Dot segments -/

def single_dots : List Text := [".".toList, "%2e".toList, "%2E".toList]

def double_dots : List Text :=
  ["..".toList, "%2e%2e".toList, "%2e%2E".toList, "%2E%2e".toList, "%2E%2E".toList, "%2e.".toList, "%2E.".toList, ".%2e".toList,
    ".%2E".toList]

attribute [local instance] lawful_text

def resolved : List Text → List Text → List Text
  | done, [] => done
  | done, [last] =>
    if last ∈ double_dots then done.dropLast ++ [[]] else if last ∈ single_dots then done ++ [[]] else done ++ [last]
  | done, segment :: rest =>
    if segment ∈ double_dots then resolved done.dropLast rest
    else if segment ∈ single_dots then resolved done rest else resolved (done ++ [segment]) rest

def opened : List Text → List Text
  | [] :: second :: rest => second :: rest
  | segments => segments

def resolve (path : Text) : Text := '/' :: ['/'].intercalate (resolved [] (opened (path.splitOn '/')))

structure Resolves {Url : Type} (u : UrlCrate Url) (carried : Char → Bool) : Prop where
  slash : carried '/' = true
  semicolon : carried ';' = true
  percent : carried '%' = true
  unreserved : ∀ octet, is_unreserved octet = true → carried (Char.ofUInt8 octet) = true
  query : carried '?' = false
  backslash : carried '\\' = false
  path_set : ∀ path, (∀ c ∈ path, carried c = true) → u.path_set path = resolve path

theorem hexOf_some {c : Char} {n : Nat} : hexOf c = some n ↔
    n < 10 ∧ c.toNat = 48 + n ∨ 10 ≤ n ∧ n < 16 ∧ (c.toNat = 55 + n ∨ c.toNat = 87 + n) := by
  by_cases ascii : c.toNat < 128
  · have value : (UInt8.ofNat c.toNat).toNat = c.toNat := by
      rw [UInt8.toNat_ofNat']
      omega
    rw [hexOf, if_pos ascii, hexValue]
    simp only [UInt8.le_iff_toNat_le, value, UInt8.reduceToNat]
    split
    · simp only [Option.some.injEq]
      omega
    · split
      · simp only [Option.some.injEq]
        omega
      · split
        · simp only [Option.some.injEq]
          omega
        · simp only [reduceCtorEq, false_iff]
          omega
  · rw [hexOf, if_neg ascii]
    simp only [reduceCtorEq, false_iff]
    omega

theorem octetOf_digits {high low : Char} (digits : hexPair [high, low] = true) (octet : UInt8) :
    octetOf high low = octet ↔ hexOf high = some (octet.toNat / 16) ∧ hexOf low = some (octet.toNat % 16) := by
  simp only [hexPair, Bool.and_eq_true, Option.isSome_iff_exists] at digits
  obtain ⟨⟨a, first⟩, ⟨b, second⟩⟩ := digits
  have bounds : a < 16 ∧ b < 16 := by
    have upper := hexOf_some.mp first
    have lower := hexOf_some.mp second
    omega
  have size : octet.toNat < 256 := octet.toNat_lt
  rw [octetOf, first, second, ← UInt8.toNat_inj, UInt8.toNat_ofNat']
  simp only [Option.getD_some, Option.some.injEq]
  omega

theorem mem_push_encoded {octet : UInt8} {c : Char} (member : c ∈ push_encoded octet) : c = '%' ∨ ∃ n < 16, c = HEX.getD n '0' := by
  have size : octet.toNat < 256 := octet.toNat_lt
  simp only [push_encoded, List.mem_cons, List.not_mem_nil, or_false] at member
  rcases member with rfl | rfl | rfl
  · exact Or.inl rfl
  · exact Or.inr ⟨_, by omega, rfl⟩
  · exact Or.inr ⟨_, by omega, rfl⟩

theorem octet_form_cases (octet : UInt8) :
    is_unreserved octet = true ∧ octet_form octet = [Char.ofUInt8 octet] ∨ octet_form octet = push_encoded octet := by
  unfold octet_form
  split
  · rename_i unreserved
    exact Or.inl ⟨unreserved, rfl⟩
  · exact Or.inr rfl

theorem matching_octet_cases (byte : UInt8) :
    byte.toNat < 128 ∧ byte ≠ 37 ∧ matching_octet byte = [Char.ofUInt8 byte] ∨
      (is_reserved byte = true → byte = 42 ∨ byte = 36 ∨ byte = 37) ∧ matching_octet byte = push_encoded byte := by
  unfold matching_octet
  split
  · rename_i mark
    exact Or.inr ⟨fun _ => mark, rfl⟩
  · rename_i mark
    split
    · rename_i kept
      exact Or.inl ⟨octet_small kept, fun sign => mark (Or.inr (Or.inr sign)), rfl⟩
    · rename_i other
      exact Or.inr ⟨fun reserved => absurd (by simp [reserved]) other, rfl⟩

/-- A character that a form keeps, of no encoding and not decoded: text before it and after it has forms of its own. -/
structure Separates (c : Char) : Prop where
  apart : c ≠ '%'
  form : (Piece.char c).form = [c]
  digit : hexOf c = none
  reserved : ∀ octet, is_unreserved octet = true → Char.ofUInt8 octet ≠ c

theorem slash_separates : Separates '/' where
  apart := by decide
  form := (@kept_form 47 (by decide) (by decide)).2
  digit := by decide
  reserved := by
    intro octet unreserved is
    obtain rfl := @ofUInt8_injective octet 47 is
    cases unreserved

theorem semicolon_separates : Separates ';' where
  apart := by decide
  form := (@kept_form 59 (by decide) (by decide)).2
  digit := by decide
  reserved := by
    intro octet unreserved is
    obtain rfl := @ofUInt8_injective octet 59 is
    cases unreserved

theorem query_separates : Separates '?' where
  apart := by decide
  form := (@kept_form 63 (by decide) (by decide)).2
  digit := by decide
  reserved := by
    intro octet unreserved is
    obtain rfl := @ofUInt8_injective octet 63 is
    cases unreserved

theorem encoding_free {octet : UInt8} {c : Char} (apart : c ≠ '%') (digit : hexOf c = none) : c ∉ push_encoded octet := by
  intro member
  rcases mem_push_encoded member with sign | ⟨n, small, rfl⟩
  · exact apart sign
  · rw [hexOf_HEX n small] at digit
    cases digit

theorem char_of_octet {d : Char} (ascii : d.toNat < 128) : Char.ofUInt8 (UInt8.ofNat d.toNat) = d := by
  apply Char.toNat_inj.mp
  rw [ofUInt8_toNat, UInt8.toNat_ofNat']
  omega

theorem Piece.char_form_cases {d c : Char} (member : c ∈ (Piece.char d).form) :
    c = d ∧ (Piece.char d).form = [d] ∨ ∃ octet, c ∈ push_encoded octet := by
  have inside := member
  obtain ⟨octet, encodes, formed⟩ := List.mem_flatMap.mp inside
  rcases matching_octet_cases octet with ⟨small, _, form⟩ | ⟨_, form⟩
  · by_cases ascii : d.toNat < 128
    · have only := encode_ascii ascii
      rw [only, List.mem_singleton] at encodes
      have whole : (Piece.char d).form = [d] := by
        rw [Piece.form, only, ← encodes, List.flatMap_cons, List.flatMap_nil, List.append_nil, form, encodes,
          char_of_octet ascii]
      rw [whole, List.mem_singleton] at member
      exact Or.inl ⟨member, whole⟩
    · have large := encode_other ascii octet encodes
      rw [UInt8.le_iff_toNat_le] at large
      have bound : (128 : UInt8).toNat = 128 := rfl
      omega
  · exact Or.inr ⟨octet, form ▸ formed⟩

section

variable {c : Char} (separates : Separates c)

include separates

theorem matching_target_between (before after : Text) :
    matching_target (before ++ c :: after) = matching_target before ++ c :: matching_target after := by
  rw [matching_target_pieces, pieces_append before (by simp [separates.digit]), pieces_cons (Or.inl separates.apart),
    List.flatMap_append, List.flatMap_cons, ← matching_target_pieces, ← matching_target_pieces, separates.form]
  rfl

theorem matching_target_free {text : Text} (free : c ∉ text) : c ∉ matching_target text := by
  rw [matching_target_pieces]
  have pieces_free : Piece.char c ∉ pieces text := by
    intro listed
    have inside : c ∈ (pieces text).flatMap Piece.text := List.mem_flatMap.mpr ⟨_, listed, by simp [Piece.text]⟩
    rw [pieces_text] at inside
    exact free inside
  intro member
  obtain ⟨piece, listed, inside⟩ := List.mem_flatMap.mp member
  cases piece with
  | encoded high low =>
    rcases octet_form_cases (octetOf high low) with ⟨unreserved, form⟩ | form
    · rw [Piece.form, form, List.mem_singleton] at inside
      exact separates.reserved _ unreserved inside.symm
    · rw [Piece.form, form] at inside
      exact encoding_free separates.apart separates.digit inside
  | char d =>
    have other : d ≠ c := by
      rintro rfl
      exact pieces_free listed
    rcases Piece.char_form_cases inside with ⟨same, _⟩ | ⟨octet, formed⟩
    · exact other same.symm
    · exact encoding_free separates.apart separates.digit formed

theorem matching_target_joined (parts : List Text) :
    matching_target ([c].intercalate parts) = [c].intercalate (parts.map matching_target) := by
  induction parts with
  | nil => rfl
  | cons part parts ih =>
    cases parts with
    | nil => simp [List.intercalate]
    | cons next parts =>
      simp only [List.map_cons, List.intercalate, List.intersperse_cons_cons, List.flatten_cons] at ih ⊢
      rw [List.singleton_append, matching_target_between separates, ih]
      rfl

theorem splitOn_target (text : Text) : (matching_target text).splitOn c = (text.splitOn c).map matching_target := by
  have whole : [c].intercalate (text.splitOn c) = text := List.intercalate_splitOn c
  conv => lhs; rw [← whole, matching_target_joined separates]
  apply List.splitOn_intercalate
  · intro part listed
    obtain ⟨written, among, rfl⟩ := List.mem_map.mp listed
    exact matching_target_free separates (splitOn_free among)
  · simp [List.splitOn_ne_nil]

end

def Piece.Whole : Piece → Prop
  | .char _ => True
  | .encoded high low => hexPair [high, low] = true

theorem pieces_whole (text : Text) : ∀ piece ∈ pieces text, piece.Whole := by
  fun_induction pieces text with
  | case1 c high low rest starts ih => exact List.forall_mem_cons.mpr ⟨starts.2, ih⟩
  | case2 c high low rest starts ih => exact List.forall_mem_cons.mpr ⟨trivial, ih⟩
  | case3 c rest short ih => exact List.forall_mem_cons.mpr ⟨trivial, ih⟩
  | case4 => exact fun _ listed => absurd listed List.not_mem_nil

theorem mem_encoding {octet : UInt8} {c : Char} (member : c ∈ push_encoded octet) :
    c = '%' ∨ ∃ octet, is_unreserved octet = true ∧ c = Char.ofUInt8 octet := by
  have digits : ∀ n < 16, is_unreserved (UInt8.ofNat (HEX.getD n '0').toNat) = true ∧
      Char.ofUInt8 (UInt8.ofNat (HEX.getD n '0').toNat) = HEX.getD n '0' := by decide
  rcases mem_push_encoded member with sign | ⟨n, small, rfl⟩
  · exact Or.inl sign
  · exact Or.inr ⟨_, (digits n small).1, (digits n small).2.symm⟩

theorem Piece.mem_form {piece : Piece} {c : Char} (member : c ∈ piece.form) :
    c ∈ piece.text ∨ c = '%' ∨ ∃ octet, is_unreserved octet = true ∧ c = Char.ofUInt8 octet := by
  cases piece with
  | encoded high low =>
    rcases octet_form_cases (octetOf high low) with ⟨unreserved, form⟩ | form
    · rw [Piece.form, form, List.mem_singleton] at member
      exact Or.inr (Or.inr ⟨_, unreserved, member⟩)
    · rw [Piece.form, form] at member
      exact Or.inr (mem_encoding member)
  | char d =>
    rcases Piece.char_form_cases member with ⟨rfl, _⟩ | ⟨octet, formed⟩
    · exact Or.inl List.mem_cons_self
    · exact Or.inr (mem_encoding formed)

theorem Piece.form_nonempty (piece : Piece) : piece.form ≠ [] := by
  cases piece with
  | encoded high low => rcases octet_form_cases (octetOf high low) with ⟨_, form⟩ | form <;> simp [Piece.form, form, push_encoded]
  | char c =>
    obtain ⟨first, rest, encodes, _⟩ := hexOf_encode c
    intro empty
    rw [Piece.form, encodes, List.flatMap_cons, List.append_eq_nil_iff] at empty
    rcases matching_octet_cases first with ⟨_, _, form⟩ | ⟨_, form⟩ <;> simp [form, push_encoded] at empty

theorem form_empty {text : Text} : matching_target text = [] ↔ text = [] := by
  constructor
  · intro empty
    rw [matching_target_pieces] at empty
    rw [← pieces_text text]
    cases cut : pieces text with
    | nil => rfl
    | cons piece rest =>
      rw [cut, List.flatMap_cons, List.append_eq_nil_iff] at empty
      exact absurd empty.1 piece.form_nonempty
  · rintro rfl
    rfl

theorem octetOf_dot {high low : Char} (digits : hexPair [high, low] = true) (dot : octetOf high low = 46) :
    ['%', high, low] ∈ single_dots := by
  rw [octetOf_digits digits] at dot
  simp only [hexOf_some, UInt8.reduceToNat, Nat.reduceDiv, Nat.reduceMod] at dot
  have first : high = '2' := by
    apply Char.toNat_inj.mp
    rw [show '2'.toNat = 50 from rfl]
    omega
  have second : low = 'e' ∨ low = 'E' := by
    rw [← Char.toNat_inj, ← Char.toNat_inj, show 'e'.toNat = 101 from rfl, show 'E'.toNat = 69 from rfl]
    omega
  rw [first]
  rcases second with rfl | rfl
  · decide
  · decide

theorem Piece.dot {piece : Piece} (whole : piece.Whole) (dot : '.' ∈ piece.form) :
    piece.form = ['.'] ∧ piece.text ∈ single_dots := by
  have free (octet : UInt8) : '.' ∉ push_encoded octet := encoding_free (by decide) (by decide)
  cases piece with
  | encoded high low =>
    rcases octet_form_cases (octetOf high low) with ⟨_, form⟩ | form
    · rw [Piece.form, form] at dot ⊢
      have is := List.mem_singleton.mp dot
      exact ⟨by rw [is], octetOf_dot whole (@ofUInt8_injective _ 46 is.symm)⟩
    · rw [Piece.form, form] at dot
      exact absurd dot (free _)
  | char c =>
    rcases Piece.char_form_cases dot with ⟨rfl, form⟩ | ⟨octet, formed⟩
    · exact ⟨form, List.mem_cons_self⟩
    · exact absurd formed (free octet)

theorem dots_written {written : List Piece} (whole : ∀ piece ∈ written, piece.Whole) {count : Nat}
    (dots : written.flatMap Piece.form = List.replicate count '.') :
    written.length = count ∧ ∀ piece ∈ written, piece.text ∈ single_dots := by
  induction written generalizing count with
  | nil =>
    have none_ : count = 0 := by simpa using dots.symm
    exact ⟨none_.symm, nofun⟩
  | cons piece rest ih =>
    rw [List.flatMap_cons] at dots
    have all : ∀ c ∈ piece.form, c = '.' := fun c inside =>
      List.eq_of_mem_replicate (dots ▸ List.mem_append_left _ inside)
    obtain ⟨c, inside⟩ := List.exists_mem_of_ne_nil _ piece.form_nonempty
    obtain ⟨form, text⟩ := piece.dot (whole piece List.mem_cons_self) (all c inside ▸ inside)
    rw [form] at dots
    cases count with
    | zero => cases dots
    | succ count =>
      obtain ⟨length, texts⟩ := ih (fun p listed => whole p (List.mem_cons_of_mem _ listed)) (List.cons.inj dots).2
      exact ⟨by simp [length], List.forall_mem_cons.mpr ⟨text, texts⟩⟩

theorem form_single {text : Text} : matching_target text ∈ single_dots ↔ text ∈ single_dots := by
  have all : ∀ segment ∈ single_dots, matching_target segment = List.replicate 1 '.' := by decide
  constructor
  · intro listed
    have dots := all _ listed
    rw [matching_target_idempotent, matching_target_pieces] at dots
    obtain ⟨length, texts⟩ := dots_written (pieces_whole text) dots
    obtain ⟨piece, cut⟩ := List.length_eq_one_iff.mp length
    have whole := pieces_text text
    rw [cut] at whole texts
    rw [← whole]
    simpa using texts piece List.mem_cons_self
  · intro listed
    rw [all text listed]
    decide

theorem form_double {text : Text} : matching_target text ∈ double_dots ↔ text ∈ double_dots := by
  have all : ∀ segment ∈ double_dots, matching_target segment = List.replicate 2 '.' := by decide
  have pairs : ∀ a ∈ single_dots, ∀ b ∈ single_dots, a ++ b ∈ double_dots := by decide
  constructor
  · intro listed
    have dots := all _ listed
    rw [matching_target_idempotent, matching_target_pieces] at dots
    obtain ⟨length, texts⟩ := dots_written (pieces_whole text) dots
    obtain ⟨first, second, cut⟩ := List.length_eq_two.mp length
    have whole := pieces_text text
    rw [cut] at whole texts
    rw [← whole]
    simpa using pairs _ (texts first (by simp)) _ (texts second (by simp))
  · intro listed
    rw [all text listed]
    decide

/-! ### Paths by their segments -/

theorem resolved_forms (done segments : List Text) :
    resolved (done.map matching_target) (segments.map matching_target) = (resolved done segments).map matching_target := by
  have none_ : matching_target [] = [] := rfl
  fun_induction resolved done segments with
  | case1 done => simp [resolved]
  | case2 done last double => simp [resolved, form_double, double, none_]
  | case3 done last double single => simp [resolved, form_double, form_single, double, single, none_]
  | case4 done last double single => simp [resolved, form_double, form_single, double, single]
  | case5 done segment rest more double ih =>
    cases rest with
    | nil => exact absurd rfl more
    | cons next rest => 
      rw [← ih]
      simp [resolved, form_double, double]
  | case6 done segment rest more double single ih =>
    cases rest with
    | nil => exact absurd rfl more
    | cons next rest =>
      rw [← ih]
      simp [resolved, form_double, form_single, double, single]
  | case7 done segment rest more double single ih =>
    cases rest with
    | nil => exact absurd rfl more
    | cons next rest =>
      rw [← ih]
      simp [resolved, form_double, form_single, double, single]

theorem opened_forms (segments : List Text) : opened (segments.map matching_target) = (opened segments).map matching_target := by
  match segments with
  | [] => rfl
  | [segment] => simp [opened]
  | [] :: second :: rest => rfl
  | (c :: segment) :: second :: rest =>
    cases form : matching_target (c :: segment) with
    | nil => exact absurd (form_empty.mp form) (List.cons_ne_nil _ _)
    | cons d more => simp [opened, form]

theorem resolve_form (path : Text) : matching_target (resolve path) = resolve (matching_target path) := by
  have begins (rest : Text) : matching_target ('/' :: rest) = '/' :: matching_target rest :=
    matching_target_between slash_separates [] rest
  have start : ([] : List Text) = ([] : List Text).map matching_target := rfl
  rw [resolve, begins, matching_target_joined slash_separates, resolve, splitOn_target slash_separates, opened_forms]
  conv => rhs; rw [start, resolved_forms]

theorem stripped_form (path : Text) : matching_target (stripped_parameters path) = stripped_parameters (matching_target path) := by
  rw [stripped_parameters, matching_target_joined slash_separates, stripped_parameters, splitOn_target slash_separates,
    List.map_map, List.map_map]
  congr 1
  apply List.map_congr_left
  intro segment _
  simp only [Function.comp_apply, splitOn_target semicolon_separates]
  cases segment.splitOn ';' <;> rfl

def merged_from (after : Bool) : List Text → Text
  | [] => []
  | [last] => last
  | segment :: rest => segment ++ (if segment = [] ∧ after then [] else ['/']) ++ merged_from true rest

def slash_run (after : Bool) : Text → Text
  | [] => []
  | c :: rest => if c = '/' then (if after then [] else ['/']) ++ slash_run true rest else c :: slash_run false rest

theorem merged_slashes_run (path : Text) : merged_slashes path = slash_run false path := by
  have from_ (start : Text) (path : Text) :
      path.foldl (fun merged c => if c ≠ '/' ∨ merged.getLast? ≠ some '/' then merged ++ [c] else merged) start =
        start ++ slash_run (start.getLast? = some '/') path := by
    induction path generalizing start with
    | nil => simp [slash_run]
    | cons c path ih =>
      rw [List.foldl_cons, ih, slash_run]
      by_cases slash : c = '/'
      · by_cases after : start.getLast? = some '/' <;> simp [slash, after]
      · simp [slash]
  exact from_ [] path

theorem slash_run_segments (after : Bool) (path : Text) : slash_run after path = merged_from after (path.splitOn '/') := by
  induction path generalizing after with
  | nil => rfl
  | cons c path ih =>
    rw [slash_run, ih, ih, List.splitOn_cons_eq_if_modifyHead]
    cases cut : path.splitOn '/' with
    | nil => exact absurd cut (List.splitOn_ne_nil _ _)
    | cons segment rest =>
      by_cases slash : c = '/'
      · cases after <;> simp [slash, merged_from]
      · cases rest <;> simp [slash, merged_from]

theorem merged_form (path : Text) : matching_target (merged_slashes path) = merged_slashes (matching_target path) := by
  rw [merged_slashes_run, merged_slashes_run, slash_run_segments, slash_run_segments, splitOn_target slash_separates]
  generalize path.splitOn '/' = segments
  generalize false = after
  fun_induction merged_from after segments with
  | case1 => rfl
  | case2 after last => rfl
  | case3 after segment rest more ih =>
    cases rest with
    | nil => exact absurd rfl more
    | cons next rest =>
      by_cases skipped : segment = [] ∧ after = true
      · obtain ⟨rfl, rfl⟩ := skipped
        simpa [merged_from, show matching_target [] = [] from rfl] using ih
      · have kept : ¬(matching_target segment = [] ∧ after = true) := by rwa [form_empty]
        simp only [List.map_cons, merged_from, skipped, kept, if_false, List.append_assoc, List.singleton_append] at ih ⊢
        rw [matching_target_between slash_separates, ih]

def Piece.decoded : Piece → Piece
  | .char c => .char c
  | .encoded high low => (delimiter high low).elim (.encoded high low) .char

theorem delimiter_apart {high low separator : Char} (named : delimiter high low = some separator) :
    hexPair [high, low] = true ∧ separator ≠ '%' ∧ hexOf separator = none := by
  simp only [delimiter] at named
  split at named
  · rename_i digits
    obtain ⟨rfl, rfl | rfl⟩ := digits <;> obtain rfl := Option.some.inj named <;> decide
  · split at named
    · rename_i digits
      obtain ⟨rfl, rfl | rfl⟩ := digits <;> obtain rfl := Option.some.inj named <;> decide
    · split at named
      · rename_i digits
        obtain ⟨rfl, rfl | rfl⟩ := digits <;> obtain rfl := Option.some.inj named <;> decide
      · cases named

theorem decoded_cons {c : Char} (other : c ≠ '%') (rest : Text) :
    decoded_separators (c :: rest) = c :: decoded_separators rest := by
  rw [decoded_separators]
  intro a b rest same
  exact absurd same other

theorem decoded_pair {high low : Char} (digits : hexPair [high, low] = true) (rest : Text) :
    decoded_separators ('%' :: high :: low :: rest) = (Piece.encoded high low).decoded.text ++ decoded_separators rest := by
  have apart : high ≠ '%' ∧ low ≠ '%' := by
    simp only [hexPair, Bool.and_eq_true] at digits
    constructor
    · rintro rfl
      simp [hexOf_percent] at digits
    · rintro rfl
      simp [hexOf_percent] at digits
  rw [decoded_separators, Piece.decoded]
  cases delimiter high low with
  | some separator => rfl
  | none =>
    simp only [decoded_cons apart.1, decoded_cons apart.2]
    rfl

theorem decoded_head (c : Char) (rest : Text) :
    ∃ d more, decoded_separators (c :: rest) = d :: more ∧ (hexOf d).isSome = (hexOf c).isSome ∧
      (c ≠ '%' → d = c ∧ more = decoded_separators rest) := by
  by_cases sign : c = '%'
  · subst sign
    match rest with
    | [] => exact ⟨_, _, rfl, rfl, fun other => absurd rfl other⟩
    | [a] =>
      refine ⟨'%', decoded_separators [a], ?_, rfl, fun other => absurd rfl other⟩
      rw [decoded_separators]
      nofun
    | a :: b :: rest =>
      rw [decoded_separators]
      cases named : delimiter a b with
      | none => exact ⟨_, _, rfl, rfl, fun other => absurd rfl other⟩
      | some separator =>
        refine ⟨_, _, rfl, ?_, fun other => absurd rfl other⟩
        rw [(delimiter_apart named).2.2, hexOf_percent]
  · exact ⟨c, _, decoded_cons sign rest, rfl, fun _ => ⟨rfl, rfl⟩⟩

theorem hexPair_none {c : Char} (none_ : (hexOf c).isSome = false) (rest : Text) : hexPair (c :: rest) = false := by
  cases rest <;> simp [hexPair, none_]

theorem hexPair_decoded (text : Text) : hexPair (decoded_separators text) = hexPair text := by
  match text with
  | [] => rfl
  | [a] =>
    have same : decoded_separators [a] = [a] := by simp [decoded_separators]
    rw [same]
  | a :: b :: rest =>
    obtain ⟨d, more, is, digit, plain⟩ := decoded_head a (b :: rest)
    by_cases sign : a = '%'
    · subst sign
      rw [is, hexPair_none digit, hexPair_none rfl]
    · obtain ⟨rfl, rfl⟩ := plain sign
      obtain ⟨e, later, is_, digit_, _⟩ := decoded_head b rest
      rw [is, is_, hexPair, hexPair, digit_]

theorem decoded_sign {rest : Text} (dangling : hexPair rest = false) :
    decoded_separators ('%' :: rest) = '%' :: decoded_separators rest := by
  match rest with
  | [] => simp [decoded_separators]
  | [a] => simp [decoded_separators]
  | a :: b :: rest =>
    rw [decoded_separators]
    cases named : delimiter a b with
    | none => rfl
    | some separator =>
      have digits : hexPair (a :: b :: rest) = true := (delimiter_apart named).1
      exact absurd (digits.symm.trans dangling) Bool.noConfusion

theorem pieces_plain {c : Char} {rest : Text} (apart : c ≠ '%' ∨ hexPair rest = false)
    (ih : pieces (decoded_separators rest) = (pieces rest).map Piece.decoded) :
    pieces (decoded_separators (c :: rest)) = (pieces (c :: rest)).map Piece.decoded := by
  have cut : decoded_separators (c :: rest) = c :: decoded_separators rest := by
    rcases apart with other | dangling
    · exact decoded_cons other rest
    · by_cases sign : c = '%'
      · subst sign
        exact decoded_sign dangling
      · exact decoded_cons sign rest
  rw [cut, pieces_cons apart, pieces_cons (by rwa [hexPair_decoded]), ih]
  rfl

theorem pieces_decoded (text : Text) : pieces (decoded_separators text) = (pieces text).map Piece.decoded := by
  induction n : text.length using Nat.strong_induction_on generalizing text with
  | _ n ih =>
    match text with
    | [] => rfl
    | c :: rest =>
      by_cases starts : c = '%' ∧ hexPair rest = true
      · obtain ⟨rfl, digits⟩ := starts
        match rest with
        | high :: low :: rest =>
          have pair : hexPair [high, low] = true := digits
          rw [decoded_pair pair, pieces_encoded pair, List.map_cons,
            ← ih rest.length (by simp at n; omega) rest rfl, Piece.decoded]
          cases named : delimiter high low with
          | none => exact pieces_encoded pair _
          | some separator => exact pieces_cons (Or.inl (delimiter_apart named).2.1)
      · have apart : c ≠ '%' ∨ hexPair rest = false := by
          by_cases sign : c = '%'
          · exact Or.inr (Bool.eq_false_of_not_eq_true fun pair => starts ⟨sign, pair⟩)
          · exact Or.inl sign
        exact pieces_plain apart (ih rest.length (by simp at n; omega) rest rfl)

theorem decoded_append {first : Text} (formed : Formed first) (second : Text) :
    decoded_separators (first ++ second) = decoded_separators first ++ decoded_separators second := by
  induction formed with
  | nil => rfl
  | char apart _ _ ih => rw [List.cons_append, decoded_cons apart, decoded_cons apart, ih, List.cons_append]
  | encoded octet _ _ ih =>
    obtain ⟨high, low, is, digits, _⟩ := push_encoded_pair octet
    rw [is, List.append_assoc]
    simp only [List.cons_append, List.nil_append]
    rw [decoded_pair digits, decoded_pair digits, ih, List.append_assoc]

def octet_delimiter (octet : UInt8) : Option Char :=
  if octet = 47 ∨ octet = 92 then some '/' else if octet = 59 then some ';' else none

theorem delimiter_octet {high low : Char} (digits : hexPair [high, low] = true) :
    delimiter high low = octet_delimiter (octetOf high low) := by
  have slash : octetOf high low = 47 ↔ high = '2' ∧ (low = 'F' ∨ low = 'f') := by
    rw [octetOf_digits digits]
    simp only [hexOf_some, ← Char.toNat_inj, UInt8.reduceToNat, Char.reduceToNat]
    omega
  have backslash : octetOf high low = 92 ↔ high = '5' ∧ (low = 'C' ∨ low = 'c') := by
    rw [octetOf_digits digits]
    simp only [hexOf_some, ← Char.toNat_inj, UInt8.reduceToNat, Char.reduceToNat]
    omega
  have semicolon : octetOf high low = 59 ↔ high = '3' ∧ (low = 'B' ∨ low = 'b') := by
    rw [octetOf_digits digits]
    simp only [hexOf_some, ← Char.toNat_inj, UInt8.reduceToNat, Char.reduceToNat]
    omega
  simp only [delimiter, octet_delimiter, slash, backslash, semicolon]
  grind
theorem decoded_encoding (octet : UInt8) : decoded_separators (push_encoded octet) =
    (match octet_delimiter octet with | some separator => [separator] | none => push_encoded octet) := by
  obtain ⟨high, low, is, digits, value⟩ := push_encoded_pair octet
  have empty : decoded_separators [] = [] := rfl
  rw [is, decoded_pair digits, Piece.decoded, delimiter_octet digits, value, empty]
  cases octet_delimiter octet <;> rfl

theorem octet_delimiter_reserved {octet : UInt8} {separator : Char} (named : octet_delimiter octet = some separator) :
    is_unreserved octet = false ∧ (Piece.char separator).form = [separator] := by
  unfold octet_delimiter at named
  split at named
  · rename_i either
    cases named
    refine ⟨?_, slash_separates.form⟩
    rcases either with rfl | rfl
    all_goals rfl
  · split at named
    · rename_i is
      cases named
      exact ⟨is ▸ rfl, semicolon_separates.form⟩
    · cases named

theorem Piece.decoded_form {piece : Piece} (whole : piece.Whole) (other : piece ≠ .char '\\') :
    decoded_separators piece.form = piece.decoded.form := by
  cases piece with
  | encoded high low =>
    have same := delimiter_octet whole
    rw [Piece.decoded, same]
    rcases octet_form_cases (octetOf high low) with ⟨unreserved, form⟩ | form
    · have none_ : octet_delimiter (octetOf high low) = none := by
        cases named : octet_delimiter (octetOf high low) with
        | none => rfl
        | some separator =>
          have reserved := (octet_delimiter_reserved named).1
          rw [unreserved] at reserved
          cases reserved
      have apart : Char.ofUInt8 (octetOf high low) ≠ '%' := (kept_form (by simp [unreserved]) (unreserved_unmarked unreserved)).1
      have kept : Option.elim none (Piece.encoded high low) Piece.char = .encoded high low := rfl
      rw [none_, kept, Piece.form, form, decoded_cons apart]
      rfl
    · rw [Piece.form, form, decoded_encoding]
      cases named : octet_delimiter (octetOf high low) with
      | none => exact form.symm
      | some separator => exact (octet_delimiter_reserved named).2.symm
  | char c =>
    have backslash : (92 : UInt8) ∉ String.utf8EncodeChar c := by
      intro encodes
      by_cases ascii : c.toNat < 128
      · rw [encode_ascii ascii, List.mem_singleton] at encodes
        have same := char_of_octet ascii
        rw [← encodes] at same
        exact other (congrArg Piece.char same.symm)
      · exact absurd (encode_other ascii 92 encodes) (by decide)
    have kept (octet : UInt8) (encodes : octet ∈ String.utf8EncodeChar c) :
        decoded_separators (matching_octet octet) = matching_octet octet := by
      rcases matching_octet_cases octet with ⟨_, sign, form⟩ | ⟨reserved, form⟩
      · have apart : Char.ofUInt8 octet ≠ '%' := fun is => sign (@ofUInt8_injective octet 37 is)
        rw [form, decoded_cons apart]
        rfl
      · rw [form]
        have none_ : octet_delimiter octet = none := by
          rw [octet_delimiter, if_neg, if_neg]
          · rintro rfl
            exact absurd (reserved rfl) (by decide)
          · rintro (rfl | rfl)
            · exact absurd (reserved rfl) (by decide)
            · exact backslash encodes
        rw [decoded_encoding, none_]
    have all (octets : List UInt8) (inside : ∀ b ∈ octets, b ∈ String.utf8EncodeChar c) :
        decoded_separators (octets.flatMap matching_octet) = octets.flatMap matching_octet := by
      induction octets with
      | nil => rfl
      | cons octet octets ih =>
        rw [List.flatMap_cons, decoded_append (matching_octet_formed octet), kept octet (inside octet List.mem_cons_self),
          ih fun b listed => inside b (List.mem_cons_of_mem _ listed)]
    exact all _ fun _ listed => listed

theorem decoded_form {path : Text} (free : '\\' ∉ path) :
    matching_target (decoded_separators path) = decoded_separators (matching_target path) := by
  have spread (written : List Piece) (whole : ∀ piece ∈ written, piece.Whole) (other : Piece.char '\\' ∉ written) :
      (written.map Piece.decoded).flatMap Piece.form = decoded_separators (written.flatMap Piece.form) := by
    induction written with
    | nil => rfl
    | cons piece rest ih =>
      simp only [List.mem_cons, not_or] at other
      rw [List.map_cons, List.flatMap_cons, List.flatMap_cons, decoded_append piece.form_formed,
        piece.decoded_form (whole piece List.mem_cons_self) (Ne.symm other.1),
        ih (fun p listed => whole p (List.mem_cons_of_mem _ listed)) other.2]
  rw [matching_target_pieces, pieces_decoded, matching_target_pieces]
  apply spread _ (pieces_whole path)
  intro listed
  have inside : '\\' ∈ (pieces path).flatMap Piece.text := List.mem_flatMap.mpr ⟨_, listed, by simp [Piece.text]⟩
  rw [pieces_text] at inside
  exact free inside

/-! ### Carried paths -/

section

variable {Url : Type} {u : UrlCrate Url} {carried : Char → Bool}

def Carried (carried : Char → Bool) (path : Text) : Prop := ∀ c ∈ path, carried c = true

theorem mem_joined {separator c : Char} {parts : List Text} (member : c ∈ [separator].intercalate parts) :
    c = separator ∨ ∃ part ∈ parts, c ∈ part := by
  induction parts with
  | nil => cases member
  | cons part parts ih =>
    cases parts with
    | nil => exact Or.inr ⟨part, List.mem_cons_self, by simpa [List.intercalate] using member⟩
    | cons next parts =>
      simp only [List.intercalate, List.intersperse_cons_cons, List.flatten_cons, List.mem_append, List.mem_singleton] at member ih
      rcases member with inside | is | later
      · exact Or.inr ⟨part, List.mem_cons_self, inside⟩
      · exact Or.inl is
      · rcases ih later with is | ⟨other, listed, inside⟩
        · exact Or.inl is
        · exact Or.inr ⟨other, List.mem_cons_of_mem _ listed, inside⟩

theorem mem_splitOn {separator c : Char} {text part : Text} (listed : part ∈ text.splitOn separator) (inside : c ∈ part) :
    c ∈ text := by
  have whole : [separator].intercalate (text.splitOn separator) = text := List.intercalate_splitOn separator
  rw [← whole]
  have all (parts : List Text) (listed : part ∈ parts) : c ∈ [separator].intercalate parts := by
    induction parts with
    | nil => cases listed
    | cons first parts ih =>
      cases parts with
      | nil => simpa [List.intercalate, ← List.mem_singleton.mp listed] using inside
      | cons next parts =>
        simp only [List.intercalate, List.intersperse_cons_cons, List.flatten_cons, List.mem_append] at ih ⊢
        rcases List.mem_cons.mp listed with rfl | later
        · exact Or.inl inside
        · exact Or.inr (Or.inr (ih later))
  exact all _ listed

theorem mem_resolved {done segments : List Text} {part : Text} (member : part ∈ resolved done segments) :
    part ∈ done ∨ part ∈ segments ∨ part = [] := by
  fun_induction resolved done segments with
  | case1 done => exact Or.inl member
  | case2 done last _ =>
    rcases List.mem_append.mp member with old | empty
    · exact Or.inl (List.mem_of_mem_dropLast old)
    · exact Or.inr (Or.inr (List.mem_singleton.mp empty))
  | case3 done last _ _ =>
    rcases List.mem_append.mp member with old | empty
    · exact Or.inl old
    · exact Or.inr (Or.inr (List.mem_singleton.mp empty))
  | case4 done last _ _ =>
    rcases List.mem_append.mp member with old | new
    · exact Or.inl old
    · exact Or.inr (Or.inl new)
  | case5 done segment rest _ _ ih =>
    rcases ih member with old | later | empty
    · exact Or.inl (List.mem_of_mem_dropLast old)
    · exact Or.inr (Or.inl (List.mem_cons_of_mem _ later))
    · exact Or.inr (Or.inr empty)
  | case6 done segment rest _ _ _ ih =>
    rcases ih member with old | later | empty
    · exact Or.inl old
    · exact Or.inr (Or.inl (List.mem_cons_of_mem _ later))
    · exact Or.inr (Or.inr empty)
  | case7 done segment rest _ _ _ ih =>
    rcases ih member with old | later | empty
    · rcases List.mem_append.mp old with old | new
      · exact Or.inl old
      · exact Or.inr (Or.inl (List.mem_singleton.mp new ▸ List.mem_cons_self))
    · exact Or.inr (Or.inl (List.mem_cons_of_mem _ later))
    · exact Or.inr (Or.inr empty)

theorem mem_opened {segments : List Text} {part : Text} (member : part ∈ opened segments) : part ∈ segments := by
  unfold opened at member
  split at member
  · exact List.mem_cons_of_mem _ member
  · exact member

variable (resolves : Resolves u carried) {path : Text}

include resolves

theorem decoded_carried (all : Carried carried path) : Carried carried (decoded_separators path) := by
  have separator_carried {high low separator : Char} (named : delimiter high low = some separator) : carried separator = true := by
    have either : separator = '/' ∨ separator = ';' := by
      unfold delimiter at named
      grind
    rcases either with rfl | rfl
    · exact resolves.slash
    · exact resolves.semicolon
  fun_induction decoded_separators path with
  | case1 a b rest separator named ih =>
    refine List.forall_mem_cons.mpr ⟨separator_carried named, ih fun c later => all c ?_⟩
    exact List.mem_cons_of_mem _ (List.mem_cons_of_mem _ (List.mem_cons_of_mem _ later))
  | case2 a b rest named ih =>
    exact List.forall_mem_cons.mpr ⟨resolves.percent, ih fun c later => all c (List.mem_cons_of_mem _ later)⟩
  | case3 c rest _ ih =>
    exact List.forall_mem_cons.mpr ⟨all c List.mem_cons_self, ih fun d later => all d (List.mem_cons_of_mem _ later)⟩
  | case4 => nofun

theorem merged_carried (all : Carried carried path) : Carried carried (merged_slashes path) := by
  rw [merged_slashes_run]
  generalize false = after
  induction path generalizing after with
  | nil => nofun
  | cons c path ih =>
    have later (after : Bool) := ih (fun d inside => all d (List.mem_cons_of_mem _ inside)) after
    rw [slash_run]
    split
    · intro d inside
      rcases List.mem_append.mp inside with slash | rest
      · have is : d = '/' := by
          cases after
          · simpa using slash
          · simp at slash
        exact is ▸ resolves.slash
      · exact later true d rest
    · exact List.forall_mem_cons.mpr ⟨all c List.mem_cons_self, later false⟩

theorem resolve_carried (all : Carried carried path) : Carried carried (resolve path) := by
  intro c inside
  rcases List.mem_cons.mp inside with rfl | inside
  · exact resolves.slash
  · rcases mem_joined inside with rfl | ⟨part, listed, inside⟩
    · exact resolves.slash
    · rcases mem_resolved listed with none_ | among | rfl
      · cases none_
      · exact all c (mem_splitOn (mem_opened among) inside)
      · cases inside

theorem stripped_carried (all : Carried carried path) : Carried carried (stripped_parameters path) := by
  intro c inside
  rcases mem_joined inside with rfl | ⟨part, listed, inside⟩
  · exact resolves.slash
  · obtain ⟨segment, among, rfl⟩ := List.mem_map.mp listed
    have first : (segment.splitOn ';').headD [] ∈ segment.splitOn ';' := by
      cases cut : segment.splitOn ';' with
      | nil => exact absurd cut (List.splitOn_ne_nil _ _)
      | cons first rest => exact List.mem_cons_self
    exact all c (mem_splitOn among (mem_splitOn first inside))

theorem target_carried (all : Carried carried path) : Carried carried (matching_target path) := by
  intro c inside
  rw [matching_target_pieces] at inside
  obtain ⟨piece, listed, inside⟩ := List.mem_flatMap.mp inside
  rcases piece.mem_form inside with written | rfl | ⟨octet, unreserved, rfl⟩
  · apply all c
    rw [← pieces_text path]
    exact List.mem_flatMap.mpr ⟨piece, listed, written⟩
  · exact resolves.percent
  · exact resolves.unreserved octet unreserved

theorem operation_form (all : Carried carried path) : ∀ operation ∈ operations u,
    Carried carried (operation path) ∧ matching_target (operation path) = operation (matching_target path) := by
  have free : '\\' ∉ path := fun inside => by
    have allowed := all _ inside
    rw [resolves.backslash] at allowed
    cases allowed
  simp only [operations, List.forall_mem_cons, List.not_mem_nil, IsEmpty.forall_iff, implies_true, and_true]
  refine ⟨⟨decoded_carried resolves all, decoded_form free⟩, ⟨merged_carried resolves all, merged_form path⟩, ⟨?_, ?_⟩,
    stripped_carried resolves all, stripped_form path⟩
  · rw [resolves.path_set path all]
    exact resolve_carried resolves all
  · rw [resolves.path_set path all, resolves.path_set _ (target_carried resolves all), resolve_form]

theorem reached_forms (all : Carried carried path) {form : Text} (reached : Reached (operations u) (matching_target path) form) :
    ∃ other, Reached (operations u) path other ∧ Carried carried other ∧ matching_target other = form := by
  apply Reached.lift _ all reached
  intro operation listed other good
  exact ⟨operation, listed, operation_form resolves good operation listed⟩

theorem reached_carried (all : Carried carried path) {other : Text} (reached : Reached (operations u) path other) :
    Carried carried other := by
  induction reached with
  | start => exact all
  | step _ listed ih => exact (operation_form resolves ih _ listed).1

end

end CommonMeasure.Declarations
