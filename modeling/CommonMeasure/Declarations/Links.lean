import CommonMeasure.Declarations.Forms
import CommonMeasure.Http.Message

/-!
# The `Link` fields of a response

Each field is split into its members, and each member is read for the licence it names.
-/

namespace CommonMeasure.Declarations.Links

def QUOTE : UInt8 := 34
def PERCENT : UInt8 := 37
def APOSTROPHE : UInt8 := 39
def STAR : UInt8 := 42
def COMMA : UInt8 := 44
def SEMICOLON : UInt8 := 59
def OPEN : UInt8 := 60
def EQUALS : UInt8 := 61
def CLOSE : UInt8 := 62
def BACKSLASH : UInt8 := 92

inductive Param where
  | Read (bytes : Bytes)
  /-- What an encoding that does not decode was decoded to. -/
  | Undecoded (bytes : Bytes)

def Param.bytes : Param → Bytes
  | .Read bytes => bytes
  | .Undecoded bytes => bytes

structure LinkMember where
  raw : Bytes
  target : Option Bytes
  rel : Option Param
  media_type : Option Param
  rel_star : Option Param
  media_type_star : Option Param
  odd_name : Bool
  malformed : Option String

def LinkMember.empty : LinkMember := ⟨[], none, none, none, none, none, false, none⟩

def lower (bytes : Bytes) : Bytes := bytes.map fun b => if 65 ≤ b ∧ b ≤ 90 then b + 32 else b

def eq_ignore_ascii_case (one other : Bytes) : Bool := lower one = lower other

def contains_ignoring_case (haystack needle : Bytes) : Bool := (lower haystack).tails.any (lower needle).isPrefixOf

def LICENSE : Bytes := utf8 "license"

def LinkMember.mentions_license (member : LinkMember) : Bool :=
  contains_ignoring_case (member.raw.filter (· ≠ BACKSLASH)) LICENSE ||
    [member.rel, member.media_type, member.rel_star, member.media_type_star].any fun param =>
      param.any fun param => contains_ignoring_case param.bytes LICENSE

/-- What is decoded, and whether every `%` began an escape. -/
def percent_decoded : Bytes → Bytes × Bool
  | byte :: high :: low :: rest =>
    match encoded byte high low with
    | some octet => (octet :: (percent_decoded rest).1, (percent_decoded rest).2)
    | none => (byte :: (percent_decoded (high :: low :: rest)).1, byte ≠ PERCENT && (percent_decoded (high :: low :: rest)).2)
  | byte :: rest => (byte :: (percent_decoded rest).1, byte ≠ PERCENT && (percent_decoded rest).2)
  | [] => ([], true)

def isGraphic (b : UInt8) : Bool := 33 ≤ b && b ≤ 126

/-- `charset'[language]'value-chars`. -/
def decode_ext_value (value : Bytes) : Param :=
  let charset := value.takeWhile (· ≠ APOSTROPHE)
  match value.dropWhile (· ≠ APOSTROPHE) with
  | [] => .Undecoded (percent_decoded value).1
  | _ :: rest =>
    match rest.dropWhile (· ≠ APOSTROPHE) with
    | [] => .Undecoded (percent_decoded value).1
    | _ :: encoded =>
      let (bytes, whole) := percent_decoded encoded
      if !whole || !encoded.all isGraphic then .Undecoded bytes
      else if eq_ignore_ascii_case charset (utf8 "UTF-8") && (fromUtf8 bytes).isSome then .Read bytes
      else if eq_ignore_ascii_case charset (utf8 "ISO-8859-1") then .Read (utf8 (spelled bytes))
      else .Undecoded bytes

def is_ows (byte : UInt8) : Bool := byte = 32 || byte = 9

def is_tchar (byte : UInt8) : Bool := is_ascii_alphanumeric byte || (utf8 "!#$%&'*+-.^_`|~").contains byte

def isAsciiWhitespace (byte : UInt8) : Bool := byte = 32 || byte = 9 || byte = 10 || byte = 12 || byte = 13

def skip_ows (rest : Bytes) : Bytes := rest.dropWhile is_ows

def isName (byte : UInt8) : Bool := byte ≠ EQUALS && byte ≠ SEMICOLON && byte ≠ COMMA && !is_ows byte

def isValue (byte : UInt8) : Bool := byte ≠ SEMICOLON && byte ≠ COMMA

def quoted_value : Bool → Bytes → Option (Bytes × Bytes)
  | _, [] => none
  | escaped, byte :: rest =>
    if !escaped && byte = QUOTE then some ([], rest)
    else if !escaped && byte = BACKSLASH then quoted_value true rest
    else (quoted_value false rest).map fun (value, after) => (byte :: value, after)

def UNCLOSED : String := "a quoted value is not closed"

def UNENDED : String := "its target has no closing >"

def read_value (rest : Bytes) : Except String (Bytes × Bytes) :=
  match skip_ows rest with
  | [] => .ok ([], [])
  | byte :: after =>
    if byte = EQUALS then
      match skip_ows after with
      | [] => .ok ([], [])
      | first :: inner =>
        if first = QUOTE then (quoted_value false inner).elim (.error UNCLOSED) .ok
        else .ok (((first :: inner).takeWhile isValue).rdropWhile isAsciiWhitespace, (first :: inner).dropWhile isValue)
    else .ok ([], byte :: after)

def LinkMember.assign (member : LinkMember) (name value : Bytes) : LinkMember :=
  let starred := name.getLast? = some STAR
  let stem := if starred then name.dropLast else name
  let param := if starred then decode_ext_value value else .Read value
  if eq_ignore_ascii_case stem (utf8 "rel") then
    if starred then { member with rel_star := member.rel_star.or (some param) }
    else { member with rel := member.rel.or (some param) }
  else if eq_ignore_ascii_case stem (utf8 "type") then
    if starred then { member with media_type_star := member.media_type_star.or (some param) }
    else { member with media_type := member.media_type.or (some param) }
  else member

/-- The parameters, each turn one `;` of them. -/
def parse_params : Nat → LinkMember → Bytes → LinkMember × Except String Bytes
  | 0, member, rest => (member, .ok rest)
  | turns + 1, member, rest =>
    match skip_ows rest with
    | [] => (member, .ok [])
    | byte :: after =>
      if byte = COMMA then (member, .ok (byte :: after))
      else if byte = SEMICOLON then
        let name := (skip_ows after).takeWhile isName
        let rest := (skip_ows after).dropWhile isName
        if name = [] then
          if rest.head?.all fun byte => byte = COMMA || byte = SEMICOLON then parse_params turns member rest
          else (member, .error "a parameter has no name")
        else
          let member := { member with odd_name := member.odd_name || !name.all is_tchar }
          match read_value rest with
          | .error why => (member, .error why)
          | .ok (value, rest) => parse_params turns (member.assign name value) rest
      else (member, .error "a parameter follows without a ;")

def parse_member (rest : Bytes) : LinkMember × Except String Bytes :=
  match rest with
  | [] => (.empty, .error "it does not begin with a target in <…>")
  | byte :: after =>
    if byte ≠ OPEN then (.empty, .error "it does not begin with a target in <…>")
    else
      match after.dropWhile (· ≠ CLOSE) with
      | [] => (.empty, .error UNENDED)
      | _ :: rest => parse_params (rest.length + 1) { LinkMember.empty with target := some (after.takeWhile (· ≠ CLOSE)) } rest

structure Scan where
  quoted : Bool
  angle : Bool
  escaped : Bool
  deriving DecidableEq

def Scan.start : Scan := ⟨false, false, false⟩

def Scan.step (scan : Scan) (byte : UInt8) : Scan :=
  if scan.escaped then { scan with escaped := false }
  else if byte = BACKSLASH && scan.quoted then { scan with escaped := true }
  else if byte = QUOTE && !scan.angle then { scan with quoted := !scan.quoted }
  else if byte = OPEN && !scan.quoted then { scan with angle := true }
  else if byte = CLOSE && !scan.quoted then { scan with angle := false }
  else scan

def next_member : Scan → Bytes → Bytes
  | _, [] => []
  | scan, byte :: rest => if byte = COMMA ∧ scan = .start then byte :: rest else next_member (scan.step byte) rest

def member_at (rest : Bytes) : LinkMember × Bytes :=
  let (member, parsed) := parse_member rest
  let (malformed, after) := match parsed with
    | .ok after => (none, after)
    | .error why => (some why, next_member .start rest)
  ({ member with malformed, raw := (rest.take (rest.length - after.length)).rdropWhile is_ows }, after)

def isGap (byte : UInt8) : Bool := is_ows byte || byte = COMMA

def membersFrom : Nat → Bytes → List LinkMember
  | 0, _ => []
  | turns + 1, rest =>
    match rest.dropWhile isGap with
    | [] => []
    | byte :: after => (member_at (byte :: after)).1 :: membersFrom turns (member_at (byte :: after)).2

def link_members (field : Bytes) : List LinkMember := membersFrom field.length field

inductive MemberReading where
  | NoLicence
  | Named (url : Text)
  | Unread (why : String)

def either (plain star : Option Param) : List (Option Param) :=
  match plain, star with
  | some plain, some star => [some plain, some star]
  | plain, star => [plain.or star]

inductive RelReading where
  | other | licence | unread (why : Option String)

section

variable {Url : Type} (u : UrlCrate Url) (refusal : Text → Text → String) (page_url : Text)

def RSL_TYPE : List Char := "application/rsl+xml".toList

def read_rel (member : LinkMember) : Option Param → RelReading
  | none => .other
  | some (.Undecoded _) =>
    if member.mentions_license then
      .unread (some ("a Link member that mentions `license` has a rel* whose RFC 8187 encoding " ++
        "does not decode, so whether it names a licence is not known"))
    else .other
  | some (.Read rel) =>
    match fromUtf8 rel with
    | some rel =>
      if (words rel.toList).any fun word => word.text.map Char.toLower = "license".toList then .licence else .other
    | none => if contains_ignoring_case rel LICENSE then .unread none else .other

def essence (media : String) : List Char := trim (media.toList.takeWhile (· ≠ ';'))

def read_target (member : LinkMember) : MemberReading :=
  match member.target with
  | none => .Unread "the Link member names an RSL licence and has no target"
  | some target =>
    match fromUtf8 target with
    | none => .Unread ("the Link member names an RSL licence and its target holds bytes that are not " ++
        "UTF-8, so no URL is read from it")
    | some target =>
      match (u.parse page_url).bind fun base => u.join base (trim target.toList) with
      | some joined => .Named (u.to_string joined)
      | none => .Unread ("the Link member names an RSL licence and its target is not a URL: " ++
          refusal page_url (trim target.toList))

def read_as (member : LinkMember) (rel media_type : Option Param) : MemberReading :=
  match read_rel member rel with
  | .other => .NoLicence
  | .unread (some why) => .Unread why
  | known =>
    match media_type with
    | none => .NoLicence
    | some (.Undecoded _) =>
      .Unread ("the Link member names a licence and its type* does not decode (RFC 8187), so " ++
        "whether it is an RSL licence is not known")
    | some (.Read media) =>
      match fromUtf8 media with
      | none => .Unread ("the Link member names a licence and its type holds bytes that are not UTF-8, " ++
          "so whether it is an RSL licence is not known")
      | some media =>
        if (essence media).map Char.toLower ≠ RSL_TYPE then .NoLicence
        else match known with
          | .unread _ => .Unread ("the Link member's rel mentions `license` and holds bytes that are not UTF-8, so " ++
              "whether it names a licence is not known")
          | _ => read_target u refusal page_url member

def MemberReading.names : MemberReading → Bool
  | .NoLicence => false
  | _ => true

def DISAGREE : String :=
  "the Link member's rel and rel*, or its type and type*, disagree about whether it names an RSL licence (RFC 8288 " ++
    "Appendix B.2 step 16 gives the starred one precedence, and a parser that does not apply it reads the plain one), " ++
    "so whether it names one is not known"

def read_member (member : LinkMember) : MemberReading :=
  match member.malformed with
  | some why =>
    if member.mentions_license then .Unread ("a Link member that mentions `license` could not be parsed: " ++ why)
    else .NoLicence
  | none =>
    if member.odd_name && ((member.rel.isNone && member.rel_star.isNone) ||
        (member.media_type.isNone && member.media_type_star.isNone)) && member.mentions_license then
      .Unread ("a Link member that mentions `license` has a parameter name that is not a token, " ++
        "and it may be the member's rel or type")
    else
      let readings := (either member.rel member.rel_star).flatMap fun rel =>
        (either member.media_type member.media_type_star).map fun media_type => read_as u refusal page_url member rel media_type
      if readings.all MemberReading.names || !readings.any MemberReading.names then readings.headD .NoLicence
      else .Unread DISAGREE

structure UnreadLink where
  written : Text
  rendered : Bool
  why : String

structure LinkLicences where
  named : Option Text
  unread : List UnreadLink

def render_value (bytes : Bytes) : Text × Bool :=
  match fromUtf8 bytes with
  | some text => (text.toList, false)
  | none => ((spelled (Http.renderOpaque bytes)).toList, true)

def ANOTHER : String :=
  "the response names another RSL licence before this one, and this edge reads one licence per page, so this licence's " ++
    "terms are unknown"

def LinkMember.written (member : LinkMember) : Bytes :=
  match member.malformed with
  | some _ => member.raw
  | none => member.target.getD member.raw

def LinkLicences.step (found : LinkLicences) (member : LinkMember) : LinkLicences :=
  match read_member u refusal page_url member with
  | .NoLicence => found
  | .Named url =>
    match found.named with
    | none => { found with named := some url }
    | some first => if first = url then found else { found with unread := found.unread ++ [⟨url, false, ANOTHER⟩] }
  | .Unread why =>
    let (written, rendered) := render_value member.written
    { found with unread := found.unread ++ [⟨written, rendered, why⟩] }

def rsl_links (fields : List Bytes) : LinkLicences :=
  (fields.flatMap link_members).foldl (LinkLicences.step u refusal page_url) ⟨none, []⟩

end

end CommonMeasure.Declarations.Links
