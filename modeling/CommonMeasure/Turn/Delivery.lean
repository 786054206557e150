import CommonMeasure.Foundation.Uuid
import CommonMeasure.Foundation.Words
import CommonMeasure.Json.Canonical

namespace CommonMeasure.Turn

open Json

structure ParsedUrl where
  scheme : String
  /-- The URL as text, its fragment unset. -/
  text : String

structure Libraries (Uuid Path : Type) where
  uuids : UuidText Uuid
  /-- `Uuid::new_v5` in the module's namespace. -/
  new_v5 : String → Uuid
  path : String → Path
  from_str : String → Option Value
  sha256_digest : Bytes → String
  /-- ECMAScript's text of the number as a double. -/
  write_number : Number → Number
  base64_decode : String → Option Bytes
  parse_from_rfc3339 : String → Option Int
  parse_url : String → Option ParsedUrl

variable {Uuid Path : Type} (L : Libraries Uuid Path)

/-- `value == text`. -/
def isText (value : Value) (text : String) : Bool := value.asStr = some text

/-- `value == true`. -/
def isTrue : Value → Bool
  | .bool true => true
  | _ => false

def isNull : Value → Bool
  | .null => true
  | _ => false

def asArray : Value → Option (List Value)
  | .array items => some items
  | _ => none

def canonical_digest (value : Value) : String := L.sha256_digest (canonical_json L.write_number value)

structure Acquired (Uuid : Type) where
  handle : Uuid
  url : Option String

abbrev Entered (Uuid : Type) := Acquired Uuid × String

inductive Delivery (Uuid Path : Type) where
  | inResult (entered : Entered Uuid)
  | saved (path : Path) (entered : Entered Uuid)
  | retrieved (acquired : Acquired Uuid)

inductive Carried (Path : Type) where
  | text
  | saved (path : Path) (hash : String)
  | other

structure RoutedCall (Uuid Path : Type) where
  handle : Uuid
  url : String
  recorded_at : Int
  carried : Carried Path

def RoutedCall.delivery (call : RoutedCall Uuid Path) (block : Value) : Delivery Uuid Path :=
  let acquired : Acquired Uuid := ⟨call.handle, some call.url⟩
  match call.carried with
  | .text => .inResult (acquired, canonical_digest L (block.get "content"))
  | .saved path hash => .saved path (acquired, hash)
  | .other => .retrieved acquired

/-- The path a `Read` call reads whole. -/
def whole_file_read (tool : String) (input : Value) : Option Path :=
  if tool = "Read" ∧ ["offset", "limit", "pages"].all (fun key => isNull (input.get key)) then
    (input.get "file_path").asStr.map L.path
  else none

def hashes_to (data hash : String) : Bool := (L.base64_decode data).any fun bytes => L.sha256_digest bytes = hash

def parts (block : Value) : List Value := (asArray (block.get "content")).getD []

def carries_bytes (block : Value) (hash : String) : Bool :=
  (parts block).any fun part => isText ((part.get "source").get "type") "base64" &&
    ((part.get "source").get "data").asStr.any fun data => hashes_to L data hash

def PREFIX : String := "Common Measure · "

def payload_text (result : Value) : Option String :=
  ((parts result).filterMap fun block => if isText (block.get "type") "text" then (block.get "text").asStr else none).find?
    fun text => !PREFIX.toList.isPrefixOf text.toList

def SELF_TOOL_PREFIXES : List String :=
  ["mcp__commonmeasure__", "mcp__plugin_commonmeasure_commonmeasure__", "mcp__contextops__",
    "mcp__plugin_contextops_contextops__"]

def isLowerHex (c : Char) : Bool := ('0' ≤ c ∧ c ≤ '9') || ('a' ≤ c ∧ c ≤ 'f')

def valid_hash (hash : String) : Bool :=
  "sha256:".toList.isPrefixOf hash.toList && (hash.toList.drop 7).length = 64 && (hash.toList.drop 7).all isLowerHex

def delivery (tool : String) (block : Value) : Option (Delivery Uuid Path) := do
  if ¬SELF_TOOL_PREFIXES.any (fun own => own ++ "context_fetch" = tool) then none
  let payload ← L.from_str (← payload_text block)
  let handle ← L.uuids.parse (← (payload.get "acquisition_id").asStr)
  let acquired : Acquired Uuid := ⟨handle, (payload.get "url").asStr⟩
  if (payload.get "content").asStr.isSome then
    some (.inResult (acquired, canonical_digest L (block.get "content")))
  else
    match (payload.get "content_hash").asStr.filter valid_hash with
    | none => some (.retrieved acquired)
    | some hash =>
      if (parts block).any fun part => isText (part.get "type") "resource" &&
          ((part.get "resource").get "blob").asStr.any fun blob => hashes_to L blob hash then
        some (.inResult (acquired, hash))
      else
        match (payload.get "path").asStr with
        | some path => some (.saved (L.path path) (acquired, hash))
        | none => some (.retrieved acquired)

def comparable (url : String) : Option String :=
  (L.parse_url url).bind fun parsed => if parsed.scheme = "http" ∨ parsed.scheme = "https" then some parsed.text else none

def same_resource (url : Option String) (reference : String) : Bool := url.bind (comparable L) = some reference

def fromUrl : List Char → Option (List Char)
  | [] => none
  | c :: text =>
    if "https://".toList.isPrefixOf (c :: text) || "http://".toList.isPrefixOf (c :: text) then some (c :: text)
    else fromUrl text

def spanUrl : Nat → List Char → List Char × List Char
  | _, [] => ([], [])
  | depth, '(' :: text => ('(' :: (spanUrl (depth + 1) text).1, (spanUrl (depth + 1) text).2)
  | 0, ')' :: text => ([], ')' :: text)
  | depth + 1, ')' :: text => (')' :: (spanUrl depth text).1, (spanUrl depth text).2)
  | depth, c :: text =>
    if isWhitespace c || "<>\"'`\x7b\x7d|\\^[]".toList.contains c then ([], c :: text)
    else (c :: (spanUrl depth text).1, (spanUrl depth text).2)

def referencesFrom : Nat → List Char → List String
  | 0, _ => []
  | fuel + 1, text =>
    match fromUrl text with
    | none => []
    | some candidate =>
      let (url, rest) := spanUrl 0 candidate
      (comparable L (String.ofList (url.rdropWhile fun c => ".,;:!?*_~".toList.contains c))).toList ++
        referencesFrom fuel (if url = [] then candidate.tail else rest)

def url_references (text : String) : List String := referencesFrom L text.length text.toList

variable [DecidableEq Uuid]

def named_by (entered : List (Entered Uuid)) (known : List (Acquired Uuid)) (reference : String) : List Uuid :=
  match (entered.filter fun e => same_resource L e.1.url reference).map fun e => e.1.handle with
  | [] => ((known.reverse.find? fun acquired => same_resource L acquired.url reference).map Acquired.handle).toList
  | in_request => in_request

def cited (text : String) (entered : List (Entered Uuid)) (known : List (Acquired Uuid)) : List Uuid :=
  let lower := text.toList.map Char.toLower
  ((url_references L text).flatMap (named_by L entered known) ++
    (known.filter fun acquired => (L.uuids.text acquired.handle).toList <:+: lower).map Acquired.handle).eraseDups

theorem mem_cited {text : String} {entered : List (Entered Uuid)} {known : List (Acquired Uuid)} {handle : Uuid}
    (named : handle ∈ cited L text entered known) :
    handle ∈ (entered.map fun e => e.1.handle) ++ known.map Acquired.handle := by
  rw [cited, List.mem_eraseDups, List.mem_append] at named
  obtain byUrl | byHandle := named
  · obtain ⟨reference, _, listed⟩ := List.mem_flatMap.mp byUrl
    unfold named_by at listed
    split at listed
    · obtain ⟨acquired, found, rfl⟩ := Option.map_eq_some_iff.mp (Option.mem_toList.mp listed)
      have held := List.mem_reverse.mp (List.mem_of_find?_eq_some found)
      exact List.mem_append_right _ (List.mem_map_of_mem held)
    · obtain ⟨e, held, rfl⟩ := List.mem_map.mp listed
      exact List.mem_append_left _ (List.mem_map_of_mem (List.mem_of_mem_filter held))
  · obtain ⟨acquired, held, rfl⟩ := List.mem_map.mp byHandle
    exact List.mem_append_right _ (List.mem_map_of_mem (List.mem_of_mem_filter held))

end CommonMeasure.Turn
