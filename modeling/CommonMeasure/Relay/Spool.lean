import CommonMeasure.Artifact.Schema
import CommonMeasure.Foundation.Ordered

/-!
# The outbound spool

A batch is on disk before it is delivered and its state is journalled before it takes effect. The writer folds the journal
into a snapshot as it closes. A process may stop between any two durable steps or within an append.
-/

namespace CommonMeasure.Relay.Spool

open Json

variable {Uuid : Type}

/-! ### What the spool keeps -/

structure SpoolEntry where
  origin : String
  queuedAt : Option Int
  document : Value
  directorySelection : Bool

def MAX_ATTEMPTS : Nat := 10

def RETRY_BASE_SECONDS : Int := 60

def RETRY_CEILING_SECONDS : Int := 3600

inductive DeliveryStatus where
  | queued
  | delivered
  | dead
  deriving DecidableEq

structure DeliveryState where
  status : DeliveryStatus
  attempts : Nat
  nextAttemptAt : Option Int
  lastAttemptAt : Option Int
  lastError : Option String
  holdReason : Option String
  deliveredSubset : Option Bool
  instanceReferencesWithheld : Option Nat
  deriving DecidableEq

def DeliveryState.queued : DeliveryState := ⟨.queued, 0, none, none, none, none, none, none⟩

def RETAIN_DELIVERED_DAYS : Int := 30

def RETAIN_DELIVERED_BATCHES : Nat := 1000

def PRUNE_FRACTION : Nat := 8

def JOURNAL_VERSION : Nat := 1

inductive JournalRecord where
  | header (version generation nextIndex : Nat) (prunedDelivered : Option Nat)
  | state (index : Nat) (state : DeliveryState)
  | prune (indices : List Nat) (nextIndex : Nat)

abbrev Lines := List (Nat × SpoolEntry)

abbrev States := List (Nat × DeliveryState)

/-- `outbound.ndjson`, `outbound.delivery.json`, `outbound.delivery.journal` and whether `outbound.pruned` is there. -/
structure Disk where
  queue : LineFile (Nat × SpoolEntry)
  snapshot : States
  journal : LineFile JournalRecord
  pruned : Bool

def Disk.empty : Disk := ⟨.holding [], [], .holding [], false⟩

structure View where
  lines : Lines
  explicit : States
  generation : Option Nat
  nextIndex : Nat
  prunedDelivered : Option Nat
  journalRecords : Nat

def READ_ONLY : String := "read-only spool cannot be changed"

def MISSING_BATCHES : String := "delivery metadata names batches the spool queue lacks; nothing is " ++
  "delivered until the lines are restored or, for a line removed as damaged, its metadata is " ++
  "removed (docs/contracts/telemetry-projection.md §Delivery state)"

def FAILED_WRITER : String := "a delivery journal append failed earlier in this process; " ++
  "nothing further is written until the spool is reopened"

/-! ### Reading -/

structure Journal where
  generation : Option Nat
  nextIndex : Nat
  prunedDelivered : Option Nat
  states : States
  prune : List Nat

def parseRecord (journal : Journal) : Option JournalRecord → Except String Journal
  | none => .error "parse outbound.delivery.journal"
  | some (.header version generation nextIndex prunedDelivered) =>
    if journal.generation = none ∧ version = JOURNAL_VERSION then
      .ok { journal with generation := some generation, nextIndex := nextIndex, prunedDelivered := prunedDelivered }
    else .error "outbound.delivery.journal has an unsupported header; use the relay that wrote it"
  | some (.state index state) =>
    if journal.generation = none then
      .error "outbound.delivery.journal has no header; restore the spool before delivery"
    else .ok { journal with states := journal.states ++ [(index, state)] }
  | some (.prune indices nextIndex) =>
    if journal.generation = none then
      .error "outbound.delivery.journal has no header; restore the spool before delivery"
    else .ok { journal with prune := journal.prune ++ indices, nextIndex := max journal.nextIndex nextIndex }

def parseJournal (lines : List (Option JournalRecord)) : Except String Journal :=
  lines.foldlM parseRecord ⟨none, 0, some 0, [], []⟩

def parseLines (last : Option Nat) : List (Option (Nat × SpoolEntry)) → Except String (Lines)
  | [] => .ok []
  | none :: _ => .error "parse spool line; nothing is delivered until the line is repaired"
  | some line :: rest =>
    if last.any (line.1 ≤ ·) then .error "spool line is out of order; nothing is delivered until the line is repaired"
    else do
      let lines ← parseLines (some line.1) rest
      .ok (line :: lines)

def pruningEvident (follows : Nat) : Lines → Bool
  | [] => false
  | line :: rest => decide (follows < line.1) || pruningEvident (line.1 + 1) rest

def follows (lines : Lines) : Nat := (lines.getLast?.map (·.1 + 1)).getD 0

structure Loaded where
  view : View
  interruptedPrune : List Nat

def load (disk : Disk) : Except String Loaded := do
  let journal ← parseJournal disk.journal.lines
  let stored ← parseLines none disk.queue.repaired.lines
  let lines := stored.filter fun line => decide (line.1 ∉ journal.prune)
  let explicit := (putAll disk.snapshot journal.states).filter fun entry => decide (entry.1 ∉ journal.prune)
  if ∀ entry ∈ explicit, (getAt lines entry.1).isSome then
    .ok ⟨⟨lines, explicit, journal.generation, max journal.nextIndex (follows lines),
      if journal.generation = none ∧ (pruningEvident 0 stored ∨ disk.pruned) then none
      else journal.prunedDelivered.map (· + journal.prune.dedup.length), journal.states.length⟩, journal.prune⟩
  else .error MISSING_BATCHES

/-! ### Changes of state -/

def stateOf (view : View) (index : Nat) : Except String DeliveryState :=
  match getAt view.explicit index with
  | some state => .ok state
  | none => if (getAt view.lines index).isSome then .ok .queued else .error "no such spool batch"

def fullStates (view : View) : States :=
  view.lines.foldl (fun states line => if (getAt states line.1).isSome then states else put line.1 .queued states) view.explicit

def second : Int := 1000000000

/-- The last instant `DateTime<Utc>` holds. -/
def MAX_UTC : Int := 8210266876799 * second + 999999999

def retryDelay (attempts : Nat) : Int := min (RETRY_BASE_SECONDS * 2 ^ (attempts - 1)) RETRY_CEILING_SECONDS * second

def claim (view : View) (index : Nat) (now : Int) : Except String (Bool × States) := do
  let state ← stateOf view index
  if state.status ≠ .queued ∨ state.nextAttemptAt.any (now < ·) then .ok (false, [])
  else if MAX_ATTEMPTS ≤ state.attempts then
    .ok (false, [(index, { state with status := .dead, nextAttemptAt := none })])
  else if MAX_UTC < now + retryDelay (state.attempts + 1) then .error "`DateTime + TimeDelta` overflowed"
  else
    .ok (true, [(index, { state with
      holdReason := none
      attempts := state.attempts + 1
      lastAttemptAt := some now
      nextAttemptAt := some (now + retryDelay (state.attempts + 1))
      lastError := some "Attempt claimed; receiver acceptance has not been recorded." })])

def recordFailure (view : View) (index : Nat) (error : String) : Except String States := do
  let state ← stateOf view index
  if state.status ≠ .queued then .error "batch is not queued"
  else if MAX_ATTEMPTS ≤ state.attempts then
    .ok [(index, { state with lastError := some error, status := .dead, nextAttemptAt := none })]
  else .ok [(index, { state with lastError := some error })]

def hold (view : View) (index : Nat) (reason : String) : Except String States := do
  let state ← stateOf view index
  if state.status ≠ .queued then .error "batch is not queued"
  else if state.holdReason = some reason then .ok []
  else .ok [(index, { state with holdReason := some reason })]

def subsetOf (format : UuidText Uuid) [DecidableEq Uuid] (accepted : List Uuid) (events : List Value) : Bool :=
  events.any fun event => (((event.get "id").asStr.bind format.parse).map fun id => decide (id ∉ accepted)).getD true

def recordAcceptance (format : UuidText Uuid) [DecidableEq Uuid] (view : View) (index : Nat) (acceptedIds : List Uuid)
    (instanceReferencesWithheld : Nat) : Except String States :=
  match getAt view.lines index with
  | none => .error "no such spool batch"
  | some entry =>
    match Artifact.Value.asArray (entry.document.get "events") with
    | none => .error "batch has no events"
    | some events => do
      let state ← stateOf view index
      if state.status = .queued ∧ 0 < state.attempts then
        .ok [(index, { state with
          status := .delivered
          deliveredSubset := some (subsetOf format acceptedIds events)
          instanceReferencesWithheld := some instanceReferencesWithheld
          nextAttemptAt := none
          lastError := none
          holdReason := none })]
      else .error "only a claimed batch can be accepted"

def requeued (now : Int) (states : States) : States :=
  states.map fun entry => (entry.1, { entry.2 with status := .queued, attempts := 0, nextAttemptAt := some now })

def requeue (view : View) (index : Option Nat) (now : Int) : Except String States :=
  let dead := view.explicit.filter fun entry => decide (entry.2.status = .dead)
  match index with
  | none => .ok (requeued now dead)
  | some index =>
    match stateOf view index with
    | .error _ => .error s!"no such spool batch: {index}"
    | .ok state =>
      if state.status = .dead then .ok (requeued now (dead.filter fun entry => decide (entry.1 = index)))
      else .error s!"batch {index} is not dead; requeue only admits dead batches"

/-! ### Durable steps -/

inductive Write where
  | line (index : Nat) (entry : SpoolEntry)
  | append (records : List JournalRecord)
  | repairQueue
  | repairJournal
  | marker
  | queue (lines : Lines)
  | snapshot (states : States)
  | journal (header : JournalRecord)

def Disk.write (disk : Disk) : Write → Disk
  | .line index entry => { disk with queue := disk.queue.append [(index, entry)] }
  | .append records => { disk with journal := disk.journal.append records }
  | .repairQueue => { disk with queue := disk.queue.repaired }
  | .repairJournal => { disk with journal := ⟨disk.journal.lines, .nothing⟩ }
  | .marker => { disk with pruned := true }
  | .queue lines => { disk with queue := .holding lines }
  | .snapshot states => { disk with snapshot := states }
  | .journal header => { disk with journal := .holding [header] }

def Disk.writePart (disk : Disk) (part : LineFile.Part) : Write → Disk
  | .line index entry => { disk with queue := disk.queue.appendPart [(index, entry)] part }
  | .append records => { disk with journal := disk.journal.appendPart records part }
  | _ => disk

structure Plan where
  writes : List Write
  view : View

def replaceJournal (view : View) : Plan :=
  let generation := view.generation.getD 0 + 1
  ⟨[.journal (.header JOURNAL_VERSION generation view.nextIndex view.prunedDelivered)],
    { view with generation := some generation, journalRecords := 0 }⟩

def appendToJournal (view : View) (records : List JournalRecord) : Plan :=
  let started := if view.generation = none then replaceJournal view else ⟨[], view⟩
  ⟨started.writes ++ [.append records], started.view⟩

def record (view : View) (changes : States) : Plan :=
  if changes = [] then ⟨[], view⟩
  else
    let appended := appendToJournal view (changes.map fun change => .state change.1 change.2)
    ⟨appended.writes, { appended.view with
      journalRecords := appended.view.journalRecords + changes.length
      explicit := putAll appended.view.explicit changes }⟩

def enqueue (view : View) (entry : SpoolEntry) : Plan :=
  ⟨[.line view.nextIndex entry],
    { view with lines := view.lines ++ [(view.nextIndex, entry)], nextIndex := view.nextIndex + 1 }⟩

def fold (view : View) (pruning : Bool) : Plan :=
  let replaced := replaceJournal { view with explicit := fullStates view }
  ⟨(if pruning then [.marker, .queue view.lines] else []) ++ .snapshot replaced.view.explicit :: replaced.writes,
    replaced.view⟩

def unpinned (format : UuidText Uuid) [DecidableEq Uuid] (pins : List Uuid) (document : Value) : Bool :=
  (document.get "agent_id").asStr.isSome &&
    ((document.get "session_id").asStr.bind format.parse).any fun session => decide (session ∉ pins)

def released (states : States) (now : Int) : List Nat :=
  let delivered := states.filter fun entry => decide (entry.2.status = .delivered)
  let beyondCount := delivered.length - RETAIN_DELIVERED_BATCHES
  (delivered.zipIdx.filter fun entry =>
    decide (entry.2 < beyondCount ∧ entry.1.2.instanceReferencesWithheld.getD 0 = 0) ||
      entry.1.2.lastAttemptAt.any fun at_ => decide (RETAIN_DELIVERED_DAYS * 86400 * second ≤ now - at_)).map (·.1.1)

def prunable (format : UuidText Uuid) [DecidableEq Uuid] (view : View) (states : States) (now : Int)
    (pins : Except String (List Uuid)) : Except String (List Nat) :=
  let released := released states now
  if released = [] ∨ released.length * PRUNE_FRACTION < view.lines.length then .ok []
  else do
    let pins ← pins
    if ∀ index ∈ released, (getAt view.lines index).isSome then
      let prune := released.filter fun index => !(getAt view.lines index).any fun entry => unpinned format pins entry.document
      .ok (if prune.length * PRUNE_FRACTION < view.lines.length then [] else prune)
    else .error "no such spool batch"

def View.without (view : View) (prune : List Nat) : View :=
  { view with
    lines := view.lines.filter fun line => decide (line.1 ∉ prune)
    explicit := view.explicit.filter fun entry => decide (entry.1 ∉ prune)
    prunedDelivered := view.prunedDelivered.map (· + prune.length) }

def compact (format : UuidText Uuid) [DecidableEq Uuid] (view : View) (now : Int) (pins : Except String (List Uuid)) :
    Except String Plan := do
  let prune ← prunable format view (fullStates view) now pins
  if prune = [] then
    .ok (if view.journalRecords = 0 then ⟨[], view⟩ else fold view false)
  else
    let announced := appendToJournal view [.prune prune view.nextIndex]
    let folded := fold (announced.view.without prune) true
    .ok ⟨announced.writes ++ folded.writes, folded.view⟩

/-! ### Runs -/

structure Writer where
  view : View
  /-- An append to the journal failed. -/
  failed : Bool

inductive Operation (Uuid : Type) where
  | enqueue (entry : SpoolEntry)
  | claim (index : Nat) (now : Int)
  | recordFailure (index : Nat) (error : String)
  | hold (index : Nat) (reason : String)
  | recordAcceptance (index : Nat) (acceptedIds : List Uuid) (instanceReferencesWithheld : Nat)
  | requeue (index : Option Nat) (now : Int)

inductive Action (Uuid : Type) where
  | open_
  | operate (operation : Operation Uuid)
  | close (now : Int) (pins : Except String (List Uuid))

/-- A stop after so many durable steps and within the next. The process may outlive a failed append to the journal. -/
structure Cut where
  writes : Nat
  part : LineFile.Part
  survived : Bool

structure Event (Uuid : Type) where
  action : Action Uuid
  cut : Option Cut

structure System where
  disk : Disk
  writer : Option Writer

def changes (format : UuidText Uuid) [DecidableEq Uuid] (view : View) : Operation Uuid → Except String States
  | .enqueue _ => .ok []
  | .claim index now => (claim view index now).map Prod.snd
  | .recordFailure index error => recordFailure view index error
  | .hold index reason => hold view index reason
  | .recordAcceptance index acceptedIds withheld => recordAcceptance format view index acceptedIds withheld
  | .requeue index now => requeue view index now

def operate (format : UuidText Uuid) [DecidableEq Uuid] (writer : Writer) : Operation Uuid → Except String Plan
  | .enqueue entry => .ok (enqueue writer.view entry)
  | operation => do
    let changes ← changes format writer.view operation
    if writer.failed ∧ changes ≠ [] then .error FAILED_WRITER else .ok (record writer.view changes)

def openSpool (disk : Disk) : Except String Plan := do
  let loaded ← load disk
  let completed := if loaded.interruptedPrune = [] then ⟨[], loaded.view⟩ else fold loaded.view true
  .ok ⟨[.repairQueue, .repairJournal] ++ completed.writes, completed.view⟩

def plan (format : UuidText Uuid) [DecidableEq Uuid] (system : System) : Action Uuid → Except String Plan
  | .open_ => if system.writer.isSome then .error "another relay or requeue owns the spool" else openSpool system.disk
  | .operate operation =>
    match system.writer with
    | none => .error READ_ONLY
    | some writer => operate format writer operation
  | .close now pins =>
    match system.writer with
    | none => .error READ_ONLY
    | some writer => if writer.failed then .error FAILED_WRITER else compact format writer.view now pins

def finished (writes : List Write) (cut : Option Cut) : List Write := (cut.map fun cut => writes.take cut.writes).getD writes

def begun (writes : List Write) (cut : Option Cut) : Option (Write × LineFile.Part) :=
  cut.bind fun cut => writes[cut.writes]?.map fun write => (write, cut.part)

def landed (disk : Disk) (writes : List Write) (cut : Option Cut) : Disk :=
  let disk := (finished writes cut).foldl Disk.write disk
  (begun writes cut).elim disk fun step => disk.writePart step.2 step.1

def writerAfter (writer : Option Writer) (plan : Plan) (event : Event Uuid) : Option Writer :=
  match event.action, event.cut with
  | .close _ _, _ => none
  | .open_, none => some ⟨plan.view, false⟩
  | .operate _, none => writer.map fun writer => ⟨plan.view, writer.failed⟩
  | .open_, some _ => none
  | .operate _, some cut =>
    match plan.writes.drop cut.writes with
    | [.append _] =>
      if cut.survived then writer.map fun writer => ⟨{ writer.view with generation := plan.view.generation }, true⟩ else none
    | _ => none

def step (format : UuidText Uuid) [DecidableEq Uuid] (system : System) (event : Event Uuid) : System :=
  match plan format system event.action with
  | .ok plan => ⟨landed system.disk plan.writes event.cut, writerAfter system.writer plan event⟩
  | .error _ =>
    match event.action with
    | .close _ _ => ⟨system.disk, none⟩
    | _ => system

def start : System := ⟨.empty, none⟩

end CommonMeasure.Relay.Spool
