import CommonMeasure.Turn.Delivery

namespace CommonMeasure.Turn

open Json

variable {Uuid Path : Type}

structure ToolUse (Path : Type) where
  name : String
  reads : Option Path

structure Call (Uuid : Type) where
  started_at : Option Int
  entered : List (Entered Uuid)
  known : Nat
  blocks : List Value

structure Generation (Uuid : Type) where
  generation_id : Uuid
  output_id : Uuid
  started_at : Option Int
  entered : List (Uuid × String)
  output_hash : String
  cited : List Uuid

/-- What a transcript is read for and against: its session, the edge's records of routed calls, and where the file
system says a path leads. -/
structure Host (Uuid Path : Type) where
  session : String
  routed : String → Option (RoutedCall Uuid Path)
  canonicalize : Path → Option Path

structure Reading (Uuid Path : Type) where
  tools : String → Option (ToolUse Path)
  window : List (Entered Uuid)
  known : List (Acquired Uuid)
  saved : Path → Option (Entered Uuid)
  order : List String
  calls : String → Option (Call Uuid)
  after_boundary : Bool

def Reading.opened : Reading Uuid Path := ⟨fun _ => none, [], [], fun _ => none, [], fun _ => none, false⟩

def insert {κ α : Type} [DecidableEq κ] (map : κ → Option α) (key : κ) (value : α) : κ → Option α :=
  fun k => if k = key then some value else map k

variable (L : Libraries Uuid Path)

def timestamp (line : Value) : Option Int := (line.get "timestamp").asStr.bind L.parse_from_rfc3339

def tool_use (tools : String → Option (ToolUse Path)) (block : Value) : String → Option (ToolUse Path) :=
  if isText (block.get "type") "tool_use" then
    match (block.get "id").asStr, (block.get "name").asStr with
    | some id, some name => insert tools id ⟨name, whole_file_read L name (block.get "input")⟩
    | _, _ => tools
  else tools

variable (host : Host Uuid Path)

section

variable [DecidableEq Path]

def saved_at (saved : Path → Option (Entered Uuid)) (path : Path) : Option (Entered Uuid) :=
  match saved path with
  | some entered => some entered
  | none => (host.canonicalize path).bind saved

def Reading.answered (reading : Reading Uuid Path) (block : Value) : Option (String × ToolUse Path) :=
  if !isText (block.get "type") "tool_result" || isTrue (block.get "is_error") then none
  else (block.get "tool_use_id").asStr.bind fun id => (reading.tools id).map fun tool => (id, tool)

def delivered (written : Option Int) (block : Value) (id : String) (tool : ToolUse Path) : Option (Delivery Uuid Path) :=
  if tool.name = "WebFetch" then
    ((host.routed id).filter fun call => written.any fun at_ => call.recorded_at ≤ at_).map fun call => call.delivery L block
  else delivery L tool.name block

/-- What a result block adds to the results seen and the files saved, and what it puts in the next request. -/
def Reading.arrive (written : Option Int) (reading : Reading Uuid Path) (block : Value) :
    Reading Uuid Path × Option (Entered Uuid) :=
  match reading.answered block with
  | none => (reading, none)
  | some (id, tool) =>
    match tool.reads with
    | some read => (reading, (saved_at host reading.saved read).filter fun entered => carries_bytes L block entered.2)
    | none =>
      match delivered L host written block id tool with
      | some (.inResult entered) => ({ reading with known := reading.known ++ [entered.1] }, some entered)
      | some (.saved path entered) =>
        ({ reading with known := reading.known ++ [entered.1], saved := insert reading.saved path entered }, none)
      | some (.retrieved acquired) => ({ reading with known := reading.known ++ [acquired] }, none)
      | none => (reading, none)

end

variable [DecidableEq Uuid] [DecidableEq Path]

def enter (window : List (Entered Uuid)) (entered : Entered Uuid) : List (Entered Uuid) :=
  if window.any fun held => held.1.handle = entered.1.handle then window else window ++ [entered]

def Reading.result (written : Option Int) (reading : Reading Uuid Path) (block : Value) : Reading Uuid Path :=
  match reading.arrive L host written block with
  | (reading, some entered) => { reading with window := enter reading.window entered }
  | (reading, none) => reading

def Reading.extend (reading : Reading Uuid Path) (id : String) (written : Option Int) (blocks : List Value) :
    Reading Uuid Path :=
  match reading.calls id with
  | some call => { reading with calls := insert reading.calls id { call with blocks := call.blocks ++ blocks } }
  | none =>
    { reading with
      order := reading.order ++ [id]
      calls := insert reading.calls id ⟨written, reading.window, reading.known.length, blocks⟩ }

def Reading.answer (reading : Reading Uuid Path) (written : Option Int) (message : Value) (blocks : List Value) :
    Reading Uuid Path :=
  let reading := { reading with tools := blocks.foldl (tool_use L) reading.tools }
  match (message.get "id").asStr with
  | none => reading
  | some id => if isText (message.get "model") "<synthetic>" then reading else reading.extend id written blocks

def Reading.summarised (reading : Reading Uuid Path) (value : Value) : Reading Uuid Path :=
  if isTrue (value.get "isCompactSummary") && !reading.after_boundary then
    { reading with window := [], after_boundary := false }
  else { reading with after_boundary := false }

def Reading.message (reading : Reading Uuid Path) (value : Value) : Reading Uuid Path :=
  let reading := reading.summarised value
  let blocks := (asArray ((value.get "message").get "content")).getD []
  if isText (value.get "type") "assistant" then reading.answer L (timestamp L value) (value.get "message") blocks
  else blocks.foldl (Reading.result L host (timestamp L value)) reading

def Reading.line (reading : Reading Uuid Path) (value : Value) : Reading Uuid Path :=
  if isTrue (value.get "isSidechain") then reading
  else if isText (value.get "type") "system" && isText (value.get "subtype") "compact_boundary" then
    { reading with window := [], after_boundary := true }
  else if isText (value.get "type") "user" || isText (value.get "type") "assistant" then reading.message L host value
  else reading

abbrev Line := Option String

inductive Parsed where
  | blank
  | damaged
  | record (value : Value)

def isObject : Value → Bool
  | .object _ => true
  | _ => false

def parse (line : Line) : Parsed :=
  match line with
  | none => .damaged
  | some text =>
    if trim text.toList = [] then .blank
    else
      match L.from_str text with
      | some value => if isObject value then .record value else .damaged
      | none => .damaged

def Reading.lines (reading : Reading Uuid Path) : Nat → List Line → Reading Uuid Path × Option Nat
  | _, [] => (reading, none)
  | number, line :: more =>
    match parse L line with
    | .blank => reading.lines (number + 1) more
    | .damaged => (reading, some (number + 1))
    | .record value => (reading.line L host value).lines (number + 1) more

def Call.text (call : Call Uuid) : String :=
  "\n".intercalate (call.blocks.filterMap fun block => if isText (block.get "type") "text" then (block.get "text").asStr else none)

def Call.generation (known : List (Acquired Uuid)) (id : String) (call : Call Uuid) : Generation Uuid :=
  let name := fun kind => "claude-code " ++ kind ++ " " ++ host.session ++ " " ++ id
  { generation_id := L.new_v5 (name "generation")
    output_id := L.new_v5 (name "output")
    started_at := call.started_at
    entered := call.entered.map fun e => (e.1.handle, e.2)
    output_hash := canonical_digest L (.array call.blocks)
    cited := cited L call.text call.entered (known.take call.known) }

def readings (transcript : List Line) : List (String × Generation Uuid) :=
  let (reading, damaged_line) := Reading.opened.lines L host 0 transcript
  let order := if damaged_line.isSome then reading.order.dropLast else reading.order
  order.filterMap fun id => (reading.calls id).map fun call => (id, call.generation L host reading.known id)

structure Transcript (Uuid : Type) where
  generations : List (Generation Uuid)
  damaged_line : Option Nat

def read_claude_transcript (transcript : List Line) : Transcript Uuid :=
  { generations := (readings L host transcript).map Prod.snd
    damaged_line := (Reading.opened.lines L host 0 transcript).2 }

end CommonMeasure.Turn
