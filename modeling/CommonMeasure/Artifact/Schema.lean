import CommonMeasure.Foundation.Uuid
import CommonMeasure.Json.Canonical

namespace CommonMeasure.Artifact

open Json

def VERSION : String := "commonmeasure-artifact/1"

def MAX_JSON_BYTES : Nat := 32 * 1024 * 1024

def MAX_FILE_BYTES : Nat := 100 * 1024 * 1024

def MAX_EVIDENCE_BYTES : Nat := 8 * 1024 * 1024

def MAX_TOTAL_EVIDENCE_BYTES : Nat := 16 * 1024 * 1024

def MAX_ASSOCIATIONS : Nat := 1024

def MAX_RECORD_BYTES : Nat := 1024 * 1024

def MAX_LINE_BYTES : Nat := 1024 * 1024

structure Libraries (Uuid : Type) where
  uuids : UuidText Uuid
  /-- `DateTime::parse_from_rfc3339` takes it. -/
  rfc3339 : String → Bool
  sha256_digest : Bytes → String
  /-- ECMAScript's text of the number as a double. -/
  write_number : Number → Number
  /-- `as_f64` is finite and, where it is whole, within the safe range. -/
  moderate : Number → Bool
  /-- NFC, then lower, upper and lower case. -/
  folded_path : String → String
  /-- `{:?}` of a string. -/
  debug : String → String
  /-- `serde_json`, members in document order and none of them dropped. -/
  from_slice : Bytes → Except String Value

def byteLength (s : String) : Nat := (utf8 s).length

/-- `char::is_control`. -/
def isControl (c : Char) : Bool := c.toNat < 32 || (127 ≤ c.toNat && c.toNat ≤ 159)

def fields (value : Value) (required optional : List String) : Except String Unit :=
  match value with
  | .object members =>
    match required.find? fun key => key ∉ members.map Prod.fst with
    | some key => .error ("missing required field: " ++ key)
    | none =>
      match (members.map Prod.fst).find? fun key => key ∉ required ∧ key ∉ optional with
      | some key => .error ("unsupported field: " ++ key)
      | none => .ok ()
  | _ => .error "expected a JSON object"

def text (value : Value) (key : String) : Except String String :=
  match (value.get key).asStr with
  | none => .error (key ++ " must be a string")
  | some s =>
    if s = "" ∨ 4096 < byteLength s ∨ s.toList.any isControl = true then
      .error (key ++ " must be nonempty, at most 4096 bytes, without control characters")
    else .ok s

def equal (value : Value) (key expected : String) : Except String Unit := do
  let s ← text value key
  if s ≠ expected then .error ("unsupported " ++ key ++ "; expected " ++ expected) else .ok ()

def Value.asArray : Value → Option (List Value)
  | .array items => some items
  | _ => none

def array (value : Value) (key : String) (max : Nat) : Except String (List Value) :=
  match Value.asArray (value.get key) with
  | none => .error (key ++ " must be an array")
  | some values =>
    if max < values.length then .error (key ++ " exceeds its " ++ toString max ++ "-item limit") else .ok values

def uint (value : Value) (key : String) : Except String Nat :=
  match (value.get key).asU64 with
  | none => .error (key ++ " must be an unsigned integer")
  | some n => .ok n

def refuse (refused : Bool) (message : String) : Except String Unit := if refused then .error message else .ok ()

def isHex (s : List Char) : Bool := s.all fun c => c.isDigit || ('a' ≤ c && c ≤ 'f')

def digest (value : String) : Except String Unit :=
  if "sha256:".toList.isPrefixOf value.toList then
    refuse ((value.toList.drop 7).length ≠ 64 || !isHex (value.toList.drop 7))
      "digest must have 64 lowercase hexadecimal digits"
  else .error "digest must use sha256"

@[simp] theorem refuse_ok {refused : Bool} {message : String} {u : Unit} : refuse refused message = .ok u ↔
    refused = false := by
  cases refused <;> simp [refuse]

theorem fields_ok {value : Value} {required : List String} {u : Unit} (passed : fields value required [] = .ok u) :
    ∃ members, value = .object members ∧ ∀ name, name ∈ members.map Prod.fst ↔ name ∈ required := by
  unfold fields at passed
  split at passed
  · rename_i members
    split at passed
    · cases passed
    rename_i all
    split at passed
    · cases passed
    rename_i known
    refine ⟨members, rfl, fun name => ⟨fun listed => ?_, fun listed => ?_⟩⟩
    · simpa using List.find?_eq_none.mp known name listed
    · simpa using List.find?_eq_none.mp all name listed
  · cases passed

theorem text_ok {value : Value} {key s : String} (passed : text value key = .ok s) :
    value.get key = .string s ∧ s ≠ "" := by
  unfold text at passed
  cases held : value.get key with
  | string t =>
    rw [held, Value.asStr] at passed
    dsimp only at passed
    split at passed
    · cases passed
    · rename_i bounded
      cases passed
      exact ⟨rfl, fun empty => bounded (.inl empty)⟩
  | _ =>
    rw [held] at passed
    cases passed

theorem equal_ok {value : Value} {key expected : String} {u : Unit} (passed : equal value key expected = .ok u) :
    value.get key = .string expected := by
  obtain ⟨s, read, passed⟩ := bind_ok.mp passed
  split at passed
  · cases passed
  · rename_i same
    rw [← not_not.mp same]
    exact (text_ok read).1

theorem array_ok {value : Value} {key : String} {max : Nat} {values : List Value} (passed : array value key max = .ok values) :
    value.get key = .array values ∧ values.length ≤ max := by
  unfold array at passed
  cases held : value.get key with
  | array items =>
    rw [held, Value.asArray] at passed
    dsimp only at passed
    split at passed
    · cases passed
    · rename_i few
      cases passed
      exact ⟨rfl, Nat.le_of_not_lt few⟩
  | _ =>
    rw [held] at passed
    cases passed

section

variable {Uuid : Type} (L : Libraries Uuid)

def uuid (value : String) : Except String Unit :=
  refuse (!((L.uuids.parse value).any fun id => L.uuids.text id = value))
    "record identifier must be a canonical lowercase UUID"

def artifact_id (value : String) : Except String Unit :=
  if "urn:uuid:".toList.isPrefixOf value.toList then uuid L (String.ofList (value.toList.drop 9))
  else .error "artifact_id must be a UUID URN"

def timestamp (value : Value) (key : String) : Except String Unit := do
  let s ← text value key
  refuse (s.toList.getLast? ≠ some 'Z' || !L.rfc3339 s) (key ++ " must be a UTC RFC3339 time ending in Z")

def base (value : Value) (kind : String) : Except String Unit := do
  equal value "record_version" VERSION
  equal value "kind" kind
  artifact_id L (← text value "artifact_id")
  timestamp L value "created_at"

def identity (value : Value) : Except String Unit := do
  fields value ["record_version", "kind", "artifact_id", "created_at"] []
  base L value "identity"

def session (value : Value) : Except String Unit := do
  fields value ["namespace", "id", "edge"] ["host"]
  let _ ← text value "namespace"
  let _ ← text value "id"
  let _ ← if "host" ∈ (match value with | .object members => members.map Prod.fst | _ => []) then text value "host"
    else .ok ""
  fields (value.get "edge") ["issuer", "installation_id"] []
  let _ ← text (value.get "edge") "issuer"
  let _ ← text (value.get "edge") "installation_id"
  .ok ()

def role (value : Value) : Except String Unit := do
  let s ← text value "role"
  refuse (s ∉ ["research", "drafting", "review", "transformation", "unspecified"]) "unsupported association role"

def assertion (value : Value) : Except String Unit := do
  let s ← text value "basis"
  refuse (s ∉ ["agent_declaration", "operator_declaration"])
    "only agent_declaration and operator_declaration are supported"
  let _ ← text value "actor"
  .ok ()

def request (value : Value) : Except String Unit := do
  fields value ["session", "role", "assertion"] []
  session (value.get "session")
  role value
  fields (value.get "assertion") ["basis", "actor"] []
  assertion (value.get "assertion")

def association (value : Value) : Except String Unit := do
  fields value ["record_version", "kind", "record_id", "created_at", "artifact_id", "session", "role", "assertion",
    "applies_to"] []
  base L value "association"
  uuid L (← text value "record_id")
  session (value.get "session")
  role value
  fields (value.get "assertion") ["basis", "actor", "relation"] []
  assertion (value.get "assertion")
  equal (value.get "assertion") "relation" "session-associated-with-artifact"
  fields (value.get "applies_to") ["kind"] []
  equal (value.get "applies_to") "kind" "working_artifact"

def isDevice (stem : List Char) : Bool :=
  stem = "con".toList || stem = "prn".toList || stem = "aux".toList || stem = "nul".toList ||
    match stem with
    | [a, b, c, d] => ([a, b, c] = "com".toList || [a, b, c] = "lpt".toList) && '1' ≤ d && d ≤ '9'
    | _ => false

def isUnsafePart (part : List Char) : Bool :=
  let folded := part.map Char.toLower
  part = [] || 255 < byteLength (String.ofList part) || part = ['.'] || part = ['.', '.'] || folded = ".git".toList ||
    part.getLast?.any (fun c => c = '.' || c = ' ') || isDevice (folded.takeWhile (· ≠ '.'))

def validate_path (path : String) : Except String Unit :=
  refuse (4096 < byteLength path || path.toList.any (fun c => isControl c || c = '\\' || c = ':') ||
    (path.toList.splitOn '/').any isUnsafePart) ("unsafe Git path: " ++ L.debug path)

/-- The entries of an inventory after that path, those folded paths taken and that many bytes counted. -/
def inventoryEntries : String → List String → Nat → List Value → Except String Unit
  | _, _, _, [] => .ok ()
  | previous, folded, total, entry :: rest => do
    fields entry ["path", "mode", "byte_length", "digest"] []
    let path ← text entry "path"
    validate_path L path
    refuse (".commonmeasure/".toList.isPrefixOf path.toList || path = "COMMONMEASURE.md") "excluded inventory path"
    refuse (path ≤ previous || L.folded_path path ∈ folded) "inventory paths must be sorted, unique and case-distinct"
    let mode ← text entry "mode"
    refuse (mode ∉ ["100644", "100755"]) "unsupported Git mode"
    let length ← uint entry "byte_length"
    refuse (64 * 1024 * 1024 < length) "Git blob exceeds 64 MiB"
    refuse (256 * 1024 * 1024 < total + length) "Git inventory exceeds 256 MiB"
    digest (← text entry "digest")
    inventoryEntries path (L.folded_path path :: folded) (total + length) rest

def isOnly (s : String) : Value → Bool
  | .array [.string t] => t = s
  | _ => false

def inventory (value : Value) : Except String Unit := do
  fields value ["scope", "excluded_prefixes", "excluded_paths", "entries"] []
  equal value "scope" "repo-inventory/1"
  refuse (!isOnly ".commonmeasure/" (value.get "excluded_prefixes") || !isOnly "COMMONMEASURE.md" (value.get "excluded_paths"))
    "unsupported repository exclusions"
  inventoryEntries L "" [] 0 (← array value "entries" 10000)

def content (value : Value) : Except String Unit := do
  equal value "algorithm" "sha256"
  digest (← text value "digest")
  let scope ← text value "scope"
  if scope = "file-bytes/1" then
    fields value ["scope", "algorithm", "digest", "byte_length"] []
    let length ← uint value "byte_length"
    refuse (MAX_FILE_BYTES < length) "file binding exceeds size limit"
  else if scope = "repo-inventory/1" then
    fields value ["scope", "algorithm", "digest", "source", "inventory"] []
    fields (value.get "source") ["object_format", "tree"] []
    let format ← text (value.get "source") "object_format"
    let width ← if format = "sha1" then .ok 40 else if format = "sha256" then .ok 64
      else .error "unsupported Git object format"
    let tree ← text (value.get "source") "tree"
    refuse (byteLength tree ≠ width || !isHex tree.toList) "invalid Git tree locator"
    inventory L (value.get "inventory")
  else .error "unsupported content scope"

def associationReferences : String → List Value → Except String Unit
  | _, [] => .ok ()
  | previous, a :: rest => do
    fields a ["record_id", "digest"] []
    let id ← text a "record_id"
    uuid L id
    digest (← text a "digest")
    refuse (id ≤ previous) "association references must be unique and sorted by record_id"
    associationReferences id rest

def coverage (c : Value) : Except String Unit := do
  fields c ["kind", "log_id", "start", "end", "record_count", "complete_lines", "captured_at"] []
  equal c "kind" "full_prefix"
  let _ ← text c "log_id"
  timestamp L c "captured_at"
  let start ← uint c "start"
  refuse (start ≠ 0) "unsupported or oversized evidence byte range"
  let stop ← uint c "end"
  refuse (stop = 0 || MAX_EVIDENCE_BYTES < stop) "unsupported or oversized evidence byte range"
  let count ← uint c "record_count"
  refuse (count = 0 || 100000 < count || !(c.get "complete_lines" matches .bool true))
    "evidence must contain 1..100000 complete lines"

def evidenceReferences : String × String → List Value → Except String Unit
  | _, [] => .ok ()
  | previous, e :: rest => do
    fields e ["association_id", "digest", "scope", "format", "coverage"] []
    uuid L (← text e "association_id")
    digest (← text e "digest")
    let here := (← text e "digest", ← text e "association_id")
    refuse (here.1 < previous.1 || (here.1 = previous.1 && here.2 ≤ previous.2))
      "evidence references must be unique and sorted by digest, association_id"
    equal e "scope" "evidence-bytes/1"
    equal e "format" "application/x-ndjson"
    coverage L (e.get "coverage")
    evidenceReferences here rest

def snapshot (value : Value) : Except String Unit := do
  fields value ["record_version", "kind", "snapshot_id", "created_at", "artifact_id", "identity_digest", "parents",
    "content", "associations", "evidence"] []
  base L value "snapshot"
  uuid L (← text value "snapshot_id")
  digest (← text value "identity_digest")
  let _ ← array value "parents" 0
  content L (value.get "content")
  associationReferences L "" (← array value "associations" MAX_ASSOCIATIONS)
  evidenceReferences L ("", "") (← array value "evidence" MAX_ASSOCIATIONS)

end

end CommonMeasure.Artifact
