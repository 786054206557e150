import CommonMeasure.Http.Written

namespace CommonMeasure.Identity

open Http

/-! ### Header fields -/

def key (name : Bytes) : Bytes := name.map lower

def valuesOf (headers : Headers) (name : Bytes) : List Bytes :=
  (headers.filter fun field => key field.name = key name).map Field.value

def get (headers : Headers) (name : Bytes) : Option Bytes := (valuesOf headers name).head?

def retained (name value : Bytes) : Bool → Headers → Headers
  | _, [] => []
  | replaced, field :: rest =>
    if key field.name ≠ key name then field :: retained name value replaced rest
    else if replaced then retained name value true rest
    else ⟨name, value, none⟩ :: retained name value true rest

def set (headers : Headers) (name value : Bytes) : Headers :=
  if headers.any fun field => key field.name = key name then retained name value false headers
  else headers ++ [⟨name, value, none⟩]

def remove (headers : Headers) (name : Bytes) : Headers := headers.filter fun field => ¬key field.name = key name

section

variable {headers : Headers} {name other value : Bytes}

theorem valuesOf_cons (field : Field) :
    valuesOf (field :: headers) name = (if key field.name = key name then [field.value] else []) ++ valuesOf headers name := by
  unfold valuesOf
  rw [List.filter_cons]
  split <;> simp_all

theorem valuesOf_none (absent : ∀ field ∈ headers, key field.name ≠ key name) : valuesOf headers name = [] := by
  unfold valuesOf
  rw [List.filter_eq_nil_iff.mpr (by simpa using absent), List.map_nil]

theorem valuesOf_append (a b : Headers) : valuesOf (a ++ b) name = valuesOf a name ++ valuesOf b name := by
  simp [valuesOf]

theorem retained_others (apart : key other ≠ key name) (replaced : Bool) :
    valuesOf (retained name value replaced headers) other = valuesOf headers other := by
  induction headers generalizing replaced with
  | nil => rfl
  | cons field rest ih =>
    rw [retained]
    split
    · rw [valuesOf_cons, valuesOf_cons, ih]
    · rename_i same
      have not_other : key field.name ≠ key other := fun is => apart (is ▸ not_not.mp same)
      split
      · rw [ih, valuesOf_cons, if_neg not_other, List.nil_append]
      · rw [valuesOf_cons, valuesOf_cons, ih, if_neg not_other, if_neg (Ne.symm apart)]

theorem retained_own (same : key other = key name) :
    valuesOf (retained name value true headers) other = [] ∧
      ((∃ field ∈ headers, key field.name = key name) → valuesOf (retained name value false headers) other = [value]) := by
  induction headers with
  | nil => exact ⟨rfl, by simp⟩
  | cons field rest ih =>
    rw [retained, retained]
    by_cases is : key field.name = key name
    · rw [if_neg (not_not.mpr is), if_pos rfl, if_neg (not_not.mpr is), if_neg Bool.false_ne_true, valuesOf_cons, ih.1]
      exact ⟨rfl, fun _ => by simp [same]⟩
    · have not_other : key field.name ≠ key other := fun own => is (own.trans same)
      rw [if_pos is, if_pos is, valuesOf_cons, valuesOf_cons, if_neg not_other, List.nil_append, List.nil_append]
      refine ⟨ih.1, ?_⟩
      rintro ⟨found, listed, named⟩
      rcases List.mem_cons.mp listed with rfl | later
      · exact (is named).elim
      · exact ih.2 ⟨found, later, named⟩

theorem set_own (same : key other = key name) : valuesOf (set headers name value) other = [value] := by
  unfold set
  split
  · rename_i present
    obtain ⟨field, listed, named⟩ := List.any_eq_true.mp present
    exact (retained_own same).2 ⟨field, listed, of_decide_eq_true named⟩
  · rename_i absent
    rw [valuesOf_append, valuesOf_none, List.nil_append, valuesOf_cons, if_pos same.symm]
    · rfl
    · intro field listed named
      exact absent (List.any_eq_true.mpr ⟨field, listed, decide_eq_true (named.trans same)⟩)

theorem set_others (apart : key other ≠ key name) : valuesOf (set headers name value) other = valuesOf headers other := by
  unfold set
  split
  · exact retained_others apart false
  · rw [valuesOf_append, valuesOf_cons, if_neg (Ne.symm apart)]
    exact List.append_nil _

theorem remove_none (none : valuesOf headers other = []) : valuesOf (remove headers name) other = [] := by
  unfold valuesOf remove at *
  rw [List.filter_filter, List.map_eq_nil_iff, List.filter_eq_nil_iff]
  rw [List.map_eq_nil_iff, List.filter_eq_nil_iff] at none
  intro field listed
  have := none field listed
  simp_all

theorem valuesOf_key (same : key other = key name) : valuesOf headers other = valuesOf headers name := by
  unfold valuesOf
  rw [same]

end

structure UrlParser (Url : Type) where
  parse : String → Except String Url
  scheme : Url → String
  host_str : Url → Option Bytes
  /-- None where it is the scheme's own. -/
  port : Url → Option Nat
  path : Url → Bytes
  query : Url → Option Bytes

section

variable {Url : Type} (u : UrlParser Url)

def parsed (url : String) : Except String Url :=
  match u.parse url with
  | .ok parsed => .ok parsed
  | .error error => .error ("parse url " ++ url ++ ": " ++ error)

def with_port (host : Bytes) (port : Nat) : Bytes := host ++ utf8 ":" ++ Json.decimal port

/-- The `@authority` of a URL, which the origin sees in `Host`. -/
def authority_of (url : String) : Except String Bytes :=
  match parsed u url with
  | .error error => .error error
  | .ok parsed =>
    match u.host_str parsed with
    | none => .error (url ++ " has no host")
    | some host_str =>
      let host := host_str.map lower
      let authority (default_port : Nat) := match u.port parsed with
        | some port => if port ≠ default_port then with_port host port else host
        | none => host
      if u.scheme parsed = "https" then .ok (authority 443)
      else if u.scheme parsed = "http" then .ok (authority 80)
      else .error (u.scheme parsed ++ " is not a scheme this signs for")

def path_of (url : String) : Except String Bytes :=
  match parsed u url with
  | .error error => .error error
  | .ok parsed => .ok (u.path parsed)

structure Origin where
  secure : Bool
  host : Bytes
  port : Nat
  target : Bytes
  authority : Bytes

def origin_of (url : String) : Except String Origin :=
  match parsed u url with
  | .error error => .error error
  | .ok parsed =>
    if u.scheme parsed ≠ "http" ∧ u.scheme parsed ≠ "https" then
      .error ("commonmeasure-http speaks http and https only, got " ++ u.scheme parsed)
    else
      let secure := u.scheme parsed = "https"
      match u.host_str parsed with
      | none => .error "url has no host"
      | some host =>
        let default_port := if secure then 443 else 80
        let port := (u.port parsed).getD default_port
        let target := match u.query parsed with
          | some query => u.path parsed ++ utf8 "?" ++ query
          | none => u.path parsed
        .ok ⟨secure, host, port, target, if port = default_port then host else with_port host port⟩

end

def ALGORITHM : Bytes := utf8 "ed25519"

def TAG : Bytes := utf8 "web-bot-auth"

def SIGNATURE_LABEL : Bytes := utf8 "sig1"

def SIGNATURE_AGENT : Bytes := utf8 "Signature-Agent"

def SIGNATURE_INPUT : Bytes := utf8 "Signature-Input"

def SIGNATURE : Bytes := utf8 "Signature"

def SIGNATURE_LIFETIME_SECS : Int := 300

def quoteMark : UInt8 := 34

def component (name : Bytes) : Bytes := quoteMark :: name ++ [quoteMark]

def integer : Int → Bytes
  | .ofNat n => Json.decimal n
  | .negSucc n => 45 :: Json.decimal (n + 1)

def signature_params (components : List Bytes) (created expires : Int) (key_id nonce tag : Bytes) : Bytes :=
  utf8 "(" ++ List.intercalate (utf8 " ") components ++ utf8 ");created=" ++ integer created ++ utf8 ";expires=" ++
    integer expires ++ utf8 ";keyid=" ++ component key_id ++ utf8 ";alg=" ++ component ALGORITHM ++ utf8 ";nonce=" ++
    component nonce ++ utf8 ";tag=" ++ component tag

def componentLine (covered : Bytes × Bytes) : Bytes := covered.1 ++ utf8 ": " ++ covered.2 ++ [newline]

def signature_base (covered : List (Bytes × Bytes)) (params : Bytes) : Bytes :=
  covered.flatMap componentLine ++ component (utf8 "@signature-params") ++ utf8 ": " ++ params

def backslash : UInt8 := 92

def quote (value : Bytes) : Bytes :=
  let escaped := value.flatMap fun b => if b = backslash then [backslash, backslash] else [b]
  component (escaped.flatMap fun b => if b = quoteMark then [backslash, quoteMark] else [b])

def isUrlSafe (b : UInt8) : Bool := isDigit b || isAlphabetic b || b = 45 || b = 95

structure Nonce where
  text : Bytes
  drawn : text.all isUrlSafe = true

structure SigningIdentity where
  /-- The Ed25519 signature of some bytes. -/
  sign_raw : Bytes → Bytes
  /-- The padded base64 of some bytes. -/
  standard : Bytes → Bytes
  key_id : Bytes
  /-- The key id is the key's thumbprint, and what was enrolled under another is not loaded. -/
  thumbprint : key_id.all isUrlSafe = true
  origin : Bytes
  /-- The record's path, where the identity was loaded from a home. -/
  enrolment_home : Option String

structure EnrolmentRecord where
  key_id : Bytes
  is_revoked : Bool
  revocation : Option String

def still_enrolled (identity : SigningIdentity) (record : Except String (Option EnrolmentRecord)) : Except String Unit :=
  match identity.enrolment_home with
  | none => .ok ()
  | some path =>
    match record with
    | .error reason => .error (reason ++ ", so this signature was refused; the next one reads it again")
    | .ok none => .error ("the enrolment record at " ++ path ++ " is gone, so this session stops signing as key " ++
        spelled identity.key_id ++ "; a new session runs unsigned, and `commonmeasure connect` enrols a new key")
    | .ok (some record) =>
      if record.key_id ≠ identity.key_id then
        .error ("this edge is now enrolled as key " ++ spelled record.key_id ++ ", not key " ++ spelled identity.key_id ++
          ", which this session loaded; a new session signs under the new key")
      else if record.is_revoked then
        .error ("the enrolled key " ++ spelled identity.key_id ++ " was revoked by the " ++ record.revocation.getD "hub" ++
          " after this session loaded it, so this session stops signing with it; a new session runs unsigned, and " ++
          "`commonmeasure connect` enrols a new key")
      else .ok ()

inductive Derived where
  | Method
  | Path
  deriving DecidableEq

def Derived.name : Derived → String
  | .Method => "@method"
  | .Path => "@path"

section

variable {Url : Type} (u : UrlParser Url) (identity : SigningIdentity)

def derived_value (url : String) (request : Request) : Derived → Except String Bytes
  | .Method => .ok request.method
  | .Path => path_of u url

def derived_components (url : String) (request : Request) :
    List Derived → List Derived → Except String (List (Bytes × Bytes))
  | _, [] => .ok []
  | before, asked :: rest =>
    if before.contains asked then .error (asked.name ++ " was asked for twice")
    else match derived_value u url request asked with
      | .error error => .error error
      | .ok value =>
        match derived_components url request (before ++ [asked]) rest with
        | .error error => .error error
        | .ok others => .ok ((component (utf8 asked.name), value) :: others)

def cover_components (headers : Headers) (cover : List Bytes) : List (Bytes × Bytes) :=
  cover.filterMap fun name => (get headers name).map fun value => (component (key name), value)

def with_agent (headers : Headers) : Headers := set headers SIGNATURE_AGENT (quote identity.origin)

def covered_components (url : String) (request : Request) (derived : List Derived) (cover : List Bytes) :
    Except String (List (Bytes × Bytes)) :=
  match authority_of u url with
  | .error error => .error error
  | .ok authority =>
    match derived_components u url request [] derived with
    | .error error => .error error
    | .ok asked =>
      .ok ((component (utf8 "@authority"), authority) :: (component (utf8 "signature-agent"), quote identity.origin) ::
        asked ++ cover_components (with_agent identity request.headers) cover)

def params_of (covered : List (Bytes × Bytes)) (created : Int) (nonce : Nonce) : Bytes :=
  signature_params (covered.map Prod.fst) created (created + SIGNATURE_LIFETIME_SECS) identity.key_id nonce.text TAG

def signature_of (base : Bytes) : Bytes :=
  SIGNATURE_LABEL ++ utf8 "=:" ++ identity.standard (identity.sign_raw base) ++ utf8 ":"

def sign_with_nonce (record : Except String (Option EnrolmentRecord)) (url : String) (request : Request)
    (derived : List Derived) (cover : List Bytes) (created : Int) (nonce : Nonce) : Except String Request :=
  match still_enrolled identity record with
  | .error error => .error error
  | .ok () =>
    match covered_components u identity url request derived cover with
    | .error error => .error error
    | .ok covered =>
      let params := params_of identity covered created nonce
      let stated := set (with_agent identity request.headers) SIGNATURE_INPUT (SIGNATURE_LABEL ++ utf8 "=" ++ params)
      .ok { request with headers := set stated SIGNATURE (signature_of identity (signature_base covered params)) }

def sign_request_covering (record : Except String (Option EnrolmentRecord)) (url : String) (request : Request)
    (derived : List Derived) (cover : List Bytes) (created : Int) (nonce : Except String Nonce) : Except String Request :=
  match nonce with
  | .error error => .error ("draw a nonce from the operating system: " ++ error)
  | .ok nonce => sign_with_nonce u identity record url request derived cover created nonce

def sign_request (record : Except String (Option EnrolmentRecord)) (url : String) (request : Request) (cover : List Bytes)
    (created : Int) (nonce : Except String Nonce) : Except String Request :=
  sign_request_covering u identity record url request [] cover created nonce

def ACCEPT_ENCODING : Bytes := utf8 "gzip"

def exchange (origin : Origin) (request : Request) : Except String Request :=
  let headers := set (set request.headers (utf8 "Host") origin.authority) (utf8 "Connection") (utf8 "close")
  let written (headers : Headers) : Except String Request :=
    match checkFields headers with
    | .error error => .error error
    | .ok () => .ok { request with target := origin.target, headers := headers }
  match get headers (utf8 "Accept-Encoding") with
  | none => written (set headers (utf8 "Accept-Encoding") ACCEPT_ENCODING)
  | some value =>
    if eqIgnoreCase value ACCEPT_ENCODING || eqIgnoreCase value (utf8 "identity") then written headers
    else .error ("Accept-Encoding \"" ++ spelled value ++ "\" is not sent: this transport decodes gzip only, so a request asks " ++
      "for gzip or identity")

def send_to (url : String) (request : Request) : Except String Request :=
  match origin_of u url with
  | .error error => .error error
  | .ok origin => exchange origin request

end

end CommonMeasure.Identity
