import CommonMeasure.Foundation.Globs
import CommonMeasure.Foundation.Words

namespace CommonMeasure.Declarations

abbrev Text := List Char

theorem lawful_text : LawfulBEq Text := inferInstance

structure UrlCrate (Url : Type) where
  parse : Text → Option Url
  path : Url → Text
  query : Url → Option Text
  host_str : Url → Option Text
  domain : Url → Option Text
  set_username : Url → Text → Url
  set_password : Url → Option Text → Url
  /-- None where the parser refuses the host. -/
  set_host : Url → Text → Option Url
  set_fragment : Url → Option Text → Url
  before_path : Url → Text
  from_path : Url → Text
  scheme : Url → Text
  port_or_known_default : Url → Option Nat
  set_path : Url → Text → Url
  set_query : Url → Option Text → Url
  to_string : Url → Text
  join : Url → Text → Option Url
  /-- The path of `http://h/` once it is set. -/
  path_set : Text → Text
  to_lowercase : Text → Text

def is_ascii_alphanumeric (octet : UInt8) : Bool :=
  (48 ≤ octet ∧ octet ≤ 57) || (65 ≤ octet ∧ octet ≤ 90) || (97 ≤ octet ∧ octet ≤ 122)

def is_unreserved (octet : UInt8) : Bool := is_ascii_alphanumeric octet || [45, 46, 95, 126].contains octet

/-- Each of `:/?#[]@!$&'()*+,;=`. -/
def is_reserved (octet : UInt8) : Bool :=
  [58, 47, 63, 35, 91, 93, 64, 33, 36, 38, 39, 40, 41, 42, 43, 44, 59, 61].contains octet

def HEX : Text := "0123456789ABCDEF".toList

def push_encoded (octet : UInt8) : Text := ['%', HEX.getD (octet.toNat / 16) '0', HEX.getD (octet.toNat % 16) '0']

def hexValue (octet : UInt8) : Option Nat :=
  if 48 ≤ octet ∧ octet ≤ 57 then some (octet.toNat - 48)
  else if 65 ≤ octet ∧ octet ≤ 70 then some (octet.toNat - 55)
  else if 97 ≤ octet ∧ octet ≤ 102 then some (octet.toNat - 87)
  else none

def encoded (byte high low : UInt8) : Option UInt8 := do
  if byte = 37 then return UInt8.ofNat (16 * (← hexValue high) + (← hexValue low)) else none

def matching_octet (byte : UInt8) : Text :=
  if byte = 42 ∨ byte = 36 ∨ byte = 37 then push_encoded byte
  else if is_unreserved byte || is_reserved byte then [Char.ofUInt8 byte]
  else push_encoded byte

def matching_octets : List UInt8 → Text
  | byte :: high :: low :: rest =>
    match encoded byte high low with
    | some octet => (if is_unreserved octet then [Char.ofUInt8 octet] else push_encoded octet) ++ matching_octets rest
    | none => matching_octet byte ++ matching_octets (high :: low :: rest)
  | byte :: rest => matching_octet byte ++ matching_octets rest
  | [] => []

def matching_target (target : Text) : Text := matching_octets (target.flatMap String.utf8EncodeChar)

def strip_suffix (c : Char) (text : Text) : Option Text := if text.getLast? = some c then some text.dropLast else none

def matching_pattern (pattern : Text) : Text :=
  match strip_suffix '$' pattern with
  | some literal => ['*'].intercalate ((literal.splitOn '*').map matching_target) ++ ['$']
  | none => ['*'].intercalate ((pattern.splitOn '*').map matching_target)

def merged_slashes (path : Text) : Text :=
  path.foldl (fun merged c => if c ≠ '/' ∨ merged.getLast? ≠ some '/' then merged ++ [c] else merged) []

/-- `%2F` and `%5C` stand for `/`, `%3B` for `;`, in either case. -/
def delimiter (a b : Char) : Option Char :=
  if a = '2' ∧ (b = 'F' ∨ b = 'f') then some '/'
  else if a = '5' ∧ (b = 'C' ∨ b = 'c') then some '/'
  else if a = '3' ∧ (b = 'B' ∨ b = 'b') then some ';'
  else none

def decoded_separators : Text → Text
  | '%' :: a :: b :: rest =>
    match delimiter a b with
    | some separator => separator :: decoded_separators rest
    | none => '%' :: decoded_separators (a :: b :: rest)
  | c :: rest => c :: decoded_separators rest
  | [] => []

def stripped_parameters (path : Text) : Text :=
  ['/'].intercalate ((path.splitOn '/').map fun segment => (segment.splitOn ';').headD [])

def MAX_PAGE_READINGS : Nat := 64

structure TooManyReadings where
  cap : Nat
deriving DecidableEq

variable {Url : Type} (u : UrlCrate Url)

def operations : List (Text → Text) := [decoded_separators, merged_slashes, u.path_set, stripped_parameters]

def reach (cap : Nat) (current : Text) : List (Text → Text) → List Text → Except TooManyReadings (List Text)
  | [], paths => .ok paths
  | operation :: later, paths =>
    if operation current ∈ paths then reach cap current later paths
    else if paths.length = cap then .error ⟨cap⟩
    else reach cap current later (paths ++ [operation current])

def walk (cap : Nat) : Nat → Nat → List Text → Except TooManyReadings (List Text)
  | 0, _, paths => .ok paths
  | steps + 1, next, paths =>
    match paths[next]? with
    | none => .ok paths
    | some current => do walk cap steps (next + 1) (← reach cap current (operations u) paths)

def readings_within (target : Text) (cap : Nat) : Except TooManyReadings (List Text) := do
  let path := target.takeWhile (· ≠ '?')
  let query := target.dropWhile (· ≠ '?')
  let paths ← walk u cap cap 0 [path]
  return paths.foldl (fun readings path =>
    let reading := matching_target (path ++ query)
    if reading ∈ readings then readings else readings ++ [reading]) []

def matching_target_readings (target : Text) : Except TooManyReadings (List Text) := readings_within u target MAX_PAGE_READINGS

def trim_end_dots (text : Text) : Text := text.rdropWhile (· = '.')

def parsed_host (entry : Text) : Option Text := do
  let host ← (u.parse ("https://".toList ++ trim entry ++ "/".toList)).bind u.host_str
  if trim_end_dots host = [] then none else some (trim_end_dots host)

def normalised_host (entry : Text) : Text := (parsed_host u entry).getD (u.to_lowercase (trim entry))

def canonical_url (url : Url) : Url :=
  let canonical := u.set_password (u.set_username url []) none
  match u.domain url with
  | some domain =>
    let host := normalised_host u domain
    if host ≠ domain ∧ host ≠ [] then (u.set_host canonical host).getD canonical else canonical
  | none => canonical

def origin_and_target (url : Url) : Text × Text :=
  let canonical := u.set_fragment (canonical_url u url) none
  (u.before_path canonical, u.from_path canonical)

def matching_url (url : Url) : Text :=
  (origin_and_target u url).1 ++ matching_target (origin_and_target u url).2

def matching_url_readings (url : Url) : Except TooManyReadings (List Text) := do
  let readings ← matching_target_readings u (origin_and_target u url).2
  return readings.map ((origin_and_target u url).1 ++ ·)

def request_target (url : Text) : Text :=
  match u.parse url with
  | some parsed => u.path parsed ++ ((u.query parsed).map ('?' :: ·)).getD []
  | none => ['/']

def matches_form (pattern target : Text) : Bool :=
  match strip_suffix '$' pattern with
  | some literal =>
    match (literal.splitOn '*').dropLast with
    -- An anchored pattern with no `*`: the target must be it exactly.
    | [] => (literal.splitOn '*').getLast?.any (target = ·)
    | first :: middle => matched first middle (literal.splitOn '*').getLast? target
  | none =>
    match pattern.splitOn '*' with
    | [] => false
    | first :: middle => matched first middle none target

def matches_pattern (pattern target : Text) : Bool := matches_form (matching_pattern pattern) (matching_target target)

/-- What a form stands for: a `*` is a run, and so is the open end of a form that is not anchored. -/
def glob (form : Text) : Glob Char :=
  let items (text : Text) : Glob Char := text.map fun c => if c = '*' then none else some c
  match strip_suffix '$' form with
  | some literal => items literal
  | none => items form ++ [none]

theorem matches_form_iff {form target : Text} : matches_form form target = true ↔ Fills (glob form) target := by
  unfold matches_form glob
  cases strip_suffix '$' form with
  | none =>
    obtain ⟨first, middle, cut, same⟩ := glob_splitOn '*' form
    simp only [cut, ← same]
    rw [matched_open, List.append_assoc]
  | some literal =>
    obtain ⟨first, middle, cut, same⟩ := glob_splitOn '*' literal
    simp only [cut, ← same]
    rcases List.eq_nil_or_concat middle with rfl | ⟨inner, last, rfl⟩
    · show (some first).any (target = ·) = true ↔ Fills (first.map some ++ []) target
      rw [fills_literals]
      simp [fills_nil]
    · have ends : (first :: (inner ++ [last])).getLast? = some last := by
        rw [← List.cons_append, List.getLast?_concat]
      have before : (first :: (inner ++ [last])).dropLast = first :: inner := by
        rw [← List.cons_append, List.dropLast_concat]
      have tail : runs (inner ++ [last]) = runs inner ++ none :: last.map some := by simp [runs]
      rw [List.concat_eq_append, ends, before, tail]
      exact matched_ended

def Plain (c : Char) : Prop := c ≠ ' ' ∧ c ≠ '*' ∧ c ≠ '$'

theorem push_encoded_plain (octet : UInt8) : ∀ c ∈ push_encoded octet, Plain c := by
  have digit (n : Nat) : Plain (HEX.getD n '0') := by
    by_cases inside : n < 16
    · have each : ∀ n < 16, Plain (HEX.getD n '0') := by unfold Plain; decide
      exact each n inside
    · have size : HEX.length = 16 := by decide
      rw [List.getD_eq_getElem?_getD, List.getElem?_eq_none (by omega)]
      unfold Plain
      decide
  intro c member
  simp only [push_encoded, List.mem_cons, List.not_mem_nil, or_false] at member
  rcases member with rfl | rfl | rfl
  · unfold Plain
    decide
  · exact digit _
  · exact digit _

theorem ofUInt8_plain {octet : UInt8} (space : octet ≠ 32) (star : octet ≠ 42) (dollar : octet ≠ 36) :
    Plain (Char.ofUInt8 octet) := by
  have apart {n : UInt8} {c : Char} (is : c = Char.ofUInt8 n) (other : octet ≠ n) : Char.ofUInt8 octet ≠ c := by
    rintro same
    have values : octet.toUInt32 = n.toUInt32 := congrArg Char.val (same.trans is)
    exact other (UInt8.toNat_inj.mp (by simpa using congrArg UInt32.toNat values))
  exact ⟨apart rfl space, apart rfl star, apart rfl dollar⟩

theorem matching_octet_plain (byte : UInt8) : ∀ c ∈ matching_octet byte, Plain c := by
  unfold matching_octet
  split
  · exact push_encoded_plain byte
  · rename_i apart
    split
    · rename_i allowed
      have space : byte ≠ 32 := by
        rintro rfl
        revert allowed
        decide
      simp only [not_or] at apart
      simpa using ofUInt8_plain space apart.1 apart.2.1
    · exact push_encoded_plain byte

theorem matching_octets_plain (octets : List UInt8) : ∀ c ∈ matching_octets octets, Plain c := by
  fun_induction matching_octets octets with
  | case1 byte high low rest octet named ih =>
    intro c member
    rcases List.mem_append.mp member with inside | later
    · split at inside
      · rename_i unreserved
        have apart {n : UInt8} (reserved : is_unreserved n = false) : octet ≠ n := by
          rintro rfl
          rw [reserved] at unreserved
          cases unreserved
        obtain rfl := List.mem_singleton.mp inside
        exact ofUInt8_plain (apart (by decide)) (apart (by decide)) (apart (by decide))
      · exact push_encoded_plain octet c inside
    · exact ih c later
  | case2 byte high low rest named ih =>
    intro c member
    rcases List.mem_append.mp member with inside | later
    · exact matching_octet_plain byte c inside
    · exact ih c later
  | case3 byte rest short ih =>
    intro c member
    rcases List.mem_append.mp member with inside | later
    · exact matching_octet_plain byte c inside
    · exact ih c later
  | case4 => simp

theorem matching_target_plain (target : Text) : ∀ c ∈ matching_target target, Plain c := matching_octets_plain _

theorem intercalate_plain (parts : List Text) : ' ' ∉ ['*'].intercalate (parts.map matching_target) := by
  have plain (part : Text) : ' ' ∉ matching_target part := fun member => (matching_target_plain part ' ' member).1 rfl
  induction parts with
  | nil => simp [List.intercalate]
  | cons part parts ih =>
    cases parts with
    | nil => simpa [List.intercalate] using plain part
    | cons next parts =>
      simp only [List.map_cons, List.intercalate] at ih ⊢
      simp [List.intersperse, plain part, ih]

theorem matching_pattern_plain (pattern : Text) : ' ' ∉ matching_pattern pattern := by
  unfold matching_pattern
  split
  · simp [intercalate_plain]
  · exact intercalate_plain _

end CommonMeasure.Declarations
