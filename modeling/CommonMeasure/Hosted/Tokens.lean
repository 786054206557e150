import CommonMeasure.Foundation.Locked
import CommonMeasure.Json.Pretty

namespace CommonMeasure.Hosted

open Json

def EDGE_TOKEN_PREFIX : String := "cmet_"

def EDGE_TOKENS_FILE : String := "hosted-tokens.json"

def HOST_WORDS : List String := ["claude-connector", "chatgpt", "m365-copilot", "copilot-cloud-agent"]

structure EdgeToken where
  label : String
  sha256 : String
  issued_at : String
  revoked_at : Option String
  host : Option String
  deriving DecidableEq

inductive Bearer where
  | subject (name : String)
  | edgeToken (label : String)
  deriving DecidableEq

structure Libraries where
  /-- `URL_SAFE_NO_PAD.encode`. -/
  encode : Bytes → String
  sha256_digest : Bytes → String
  /-- `{:?}` of a string. -/
  debug : String → String
  from_slice : Bytes → Except String Value
  /-- What `serde` says of a document that is not a token file. -/
  mismatch : Value → String

structure Libraries.Lawful (L : Libraries) : Prop where
  encoded : Function.Injective L.encode
  hashed : Function.Injective L.sha256_digest
  read_pretty : ∀ value : Value, value.depth ≤ recursionLimit → L.from_slice (pretty value) = .ok value

def optionalMember (name : String) : Option String → List (String × Value)
  | none => []
  | some s => [(name, .string s)]

def EdgeToken.toValue (token : EdgeToken) : Value :=
  .object ([("label", .string token.label), ("sha256", .string token.sha256), ("issued_at", .string token.issued_at)] ++
    optionalMember "revoked_at" token.revoked_at ++ optionalMember "host" token.host)

def EdgeToken.ofValue : Value → Option EdgeToken
  | .object members => do
    let label ← text members "label"
    let sha256 ← text members "sha256"
    let issued_at ← text members "issued_at"
    let revoked_at ← optionalText members "revoked_at"
    let host ← optionalText members "host"
    some { label, sha256, issued_at, revoked_at, host }
  | _ => none

def document (tokens : List EdgeToken) : Value := .object [("tokens", .array (tokens.map EdgeToken.toValue))]

def ofDocument : Value → Option (List EdgeToken)
  | .object members =>
    match field members "tokens" with
    | some (.array items) => items.mapM EdgeToken.ofValue
    | _ => none
  | _ => none

variable (L : Libraries) (home : String)

def path : String := home ++ "/" ++ EDGE_TOKENS_FILE

def load : Option Bytes → Except String (List EdgeToken)
  | none => .ok []
  | some bytes =>
    match L.from_slice bytes with
    | .error e => .error (path home ++ " is not a valid token file: " ++ e)
    | .ok value =>
      match ofDocument value with
      | some tokens => .ok tokens
      | none => .error (path home ++ " is not a valid token file: " ++ L.mismatch value)

def stored (tokens : List EdgeToken) : Option Bytes := some (pretty (document tokens))

inductive Change where
  | issue (label : String) (host : Option String) (secret : Bytes) (now : String)
  | revoke (label now : String)
  deriving DecidableEq

def isGraphic (c : Char) : Bool := 33 ≤ c.toNat && c.toNat ≤ 126

def hostRefused : Option String → Bool
  | none => false
  | some host => host ∉ HOST_WORDS

def labelRefused (label : String) : Bool :=
  label = "" || 128 < (utf8 label).length || !label.toList.all fun c => isGraphic c && c ≠ '"' && c ≠ '\\'

def allows : Change → Except String Unit
  | .issue label host _ _ =>
    if hostRefused host then
      .error ("--host " ++ L.debug (host.getD "") ++ " is not an endpoint; the endpoints are " ++
        ", ".intercalate HOST_WORDS)
    else if labelRefused label then
      .error "a token label is 1 to 128 printable ASCII characters with no space, quote or backslash"
    else .ok ()
  | .revoke _ _ => .ok ()

def tokenOf (secret : Bytes) : String := EDGE_TOKEN_PREFIX ++ L.encode secret

def issued (label : String) (host : Option String) (secret : Bytes) (now : String) : EdgeToken :=
  { label, sha256 := L.sha256_digest (utf8 (tokenOf L secret)), issued_at := now, revoked_at := none, host }

def issue (label : String) (host : Option String) (secret : Bytes) (now : String) (file : Option Bytes) :
    Except String (List (Option Bytes) × Option String) := do
  let tokens ← load L home file
  if tokens.any fun token => token.label = label then
    .error ("an edge token for " ++ L.debug label ++ " was already issued; revoke it and choose another label")
  else .ok ([stored (tokens ++ [issued L label host secret now])], some (tokenOf L secret))

def revokeFirst (label now : String) : List EdgeToken → List EdgeToken
  | [] => []
  | token :: more =>
    if token.label = label then { token with revoked_at := some now } :: more else token :: revokeFirst label now more

def revoke (label now : String) (file : Option Bytes) : Except String (List (Option Bytes) × Option String) := do
  let tokens ← load L home file
  match tokens.find? fun token => token.label = label with
  | none => .error ("no edge token was issued for " ++ L.debug label)
  | some token =>
    match token.revoked_at with
    | some at_ => .error ("the edge token for " ++ L.debug label ++ " was already revoked at " ++ at_)
    | none => .ok ([stored (revokeFirst label now tokens)], none)

def rewriter : Locked.Rewriter Change (Option Bytes) String (Option String) where
  allows := allows L
  rewrite
    | .issue label host secret now => issue L home label host secret now
    | .revoke label now => revoke L home label now

def verifyHeld (held : EdgeToken) (host : String) : Except String Bearer :=
  match held.revoked_at with
  | some at_ => .error ("edge token " ++ L.debug held.label ++ " was revoked at " ++ at_)
  | none =>
    match held.host with
    | some bound =>
      if bound ≠ host then
        .error ("edge token " ++ L.debug held.label ++ " is bound to the endpoint /mcp/" ++ bound ++
          " and was presented on /mcp/" ++ host)
      else .ok (.edgeToken held.label)
    | none => .ok (.edgeToken held.label)

def verify_edge_token (file : Option Bytes) (token host : String) : Except String Bearer :=
  match load L home file with
  | .error reason => .error (reason.replace (path home) EDGE_TOKENS_FILE)
  | .ok tokens =>
    match tokens.find? fun held => held.sha256 = L.sha256_digest (utf8 token) with
    | none => .error "the edge token is not one this edge issued"
    | some held => verifyHeld L held host

variable {L} {home}

theorem EdgeToken.ofValue_toValue (token : EdgeToken) : EdgeToken.ofValue token.toValue = some token := by
  obtain ⟨label, sha256, issued_at, revoked_at, host⟩ := token
  cases revoked_at <;> cases host <;> rfl

theorem ofDocument_document (tokens : List EdgeToken) : ofDocument (document tokens) = some tokens := by
  have read : (tokens.map EdgeToken.toValue).mapM EdgeToken.ofValue = some tokens := by
    induction tokens with
    | nil => rfl
    | cons token more ih => simp [EdgeToken.ofValue_toValue, ih]
  exact read

theorem depth_toValue (token : EdgeToken) : token.toValue.depth = 1 := by
  obtain ⟨label, sha256, issued_at, revoked_at, host⟩ := token
  cases revoked_at <;> cases host <;> rfl

theorem depth_document (tokens : List EdgeToken) : (document tokens).depth ≤ 3 := by
  have items : depthItems (tokens.map EdgeToken.toValue) ≤ 1 := by
    induction tokens with
    | nil => exact Nat.zero_le _
    | cons token more ih =>
      rw [List.map_cons, depthItems, depth_toValue]
      omega
  simp only [document, Value.depth, depthMembers]
  omega

theorem load_stored (lawful : L.Lawful) (tokens : List EdgeToken) : load L home (stored tokens) = .ok tokens := by
  have shallow := depth_document tokens
  have read := lawful.read_pretty (document tokens) (by unfold recursionLimit; omega)
  simp only [load, stored, read, ofDocument_document]

theorem tokenOf_injective (lawful : L.Lawful) {secret other : Bytes} (same : tokenOf L secret = tokenOf L other) :
    secret = other := by
  have chars := congrArg String.toList same
  simp only [tokenOf, String.toList_append, List.append_cancel_left_eq] at chars
  exact lawful.encoded (String.toList_injective chars)

theorem utf8_injective {s t : String} (same : utf8 s = utf8 t) : s = t := by
  have read := congrArg fromUtf8 same
  rwa [fromUtf8_utf8, fromUtf8_utf8, Option.some.injEq] at read

end CommonMeasure.Hosted
