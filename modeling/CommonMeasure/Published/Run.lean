import CommonMeasure.Json.Canonical
import CommonMeasure.Json.Pretty
import CommonMeasure.Published.Journal

namespace CommonMeasure.Published

/-! ### The files of a run -/

abbrev Path := List Char

def file_stem (plan : List Char) : Path := plan.map fun character =>
  if ('a' ≤ character ∧ character ≤ 'z') ∨ ('A' ≤ character ∧ character ≤ 'Z') ∨ ('0' ≤ character ∧ character ≤ '9') ∨
      character = '-' ∨ character = '_' ∨ character = '.' then character else '-'

inductive Kind where
  | response | inspect | preview | labelled | manifest
  deriving DecidableEq

def Kind.folder : Kind → Path
  | .response | .inspect | .preview => "responses/".toList
  | .labelled | .manifest => "provenance/".toList

def Kind.suffix : Kind → Path
  | .response => ".json".toList
  | .inspect => "-inspect.json".toList
  | .preview => "-quote.json".toList
  | .labelled => ".txt".toList
  | .manifest => ".c2pa".toList

def Kind.reference (kind : Kind) (plan : List Char) : Path := kind.folder ++ file_stem plan ++ kind.suffix

def planName (provider : List Char) : List Char := provider ++ "-only".toList

def baselineName : List Char := "no-context".toList

theorem file_stem_append (a b : List Char) : file_stem (a ++ b) = file_stem a ++ file_stem b := List.map_append

theorem file_stem_planName (provider : List Char) : file_stem (planName provider) = file_stem provider ++ "-only".toList := by
  have kept : file_stem "-only".toList = "-only".toList := by decide
  rw [planName, file_stem_append, kept]

def endings : List Path := ["-only".toList, "-context".toList]

def Named (plan : List Char) : Prop := ∃ ending ∈ endings, ending <:+ file_stem plan

theorem named_planName (provider : List Char) : Named (planName provider) :=
  ⟨_, .head _, file_stem_planName provider ▸ List.suffix_append _ _⟩

theorem named_baseline : Named baselineName := ⟨"-context".toList, .tail _ (.head _), "no".toList, by decide⟩

theorem suffix_tails (k k' : Kind) : ∀ e ∈ endings, ∀ e' ∈ endings, e ++ k.suffix <:+ e' ++ k'.suffix → k = k' ∧ e = e' := by
  cases k <;> cases k' <;> decide +kernel

theorem reference_inj {k k' : Kind} {a b : List Char} (named : Named a) (named' : Named b)
    (same : k.reference a = k'.reference b) : k = k' ∧ file_stem a = file_stem b := by
  obtain ⟨e, listed, x, whole⟩ := named
  obtain ⟨e', listed', y, whole'⟩ := named'
  have left : e ++ k.suffix <:+ k.reference a := ⟨k.folder ++ x, by rw [Kind.reference, ← whole]; simp⟩
  have right : e' ++ k'.suffix <:+ k.reference a := ⟨k'.folder ++ y, by rw [same, Kind.reference, ← whole']; simp⟩
  have kinds : k = k' := by
    obtain tails | tails := List.suffix_or_suffix_of_suffix left right
    · exact (suffix_tails k k' e listed e' listed' tails).1
    · exact (suffix_tails k' k e' listed' e listed tails).1.symm
  subst kinds
  unfold Kind.reference at same
  exact ⟨rfl, List.append_cancel_left (List.append_cancel_right same)⟩

theorem reference_folder (k : Kind) (plan : List Char) : '/' ∈ k.reference plan := by
  have slash : '/' ∈ k.folder := by cases k <;> decide
  exact List.mem_append_left _ (List.mem_append_left _ slash)

open Json Evidence

structure Libraries where
  sha256_digest : Bytes → String
  /-- ECMAScript's text of the number as a double. -/
  write_number : Number → Number

def canonical_digest (L : Libraries) (value : Value) : String := L.sha256_digest (canonical_json L.write_number value)

abbrev Files := Path → Option Bytes

def Files.write (files : Files) (path : Path) (bytes : Bytes) : Files := fun p => if p = path then some bytes else files p

/-- How a write ends. One that fails leaves what was there, nothing of it, or some of what was to be written. -/
inductive Write where
  | done
  | failed (left : Option Bytes) (error : String)

def write_bytes (files : Files) (path : Path) (bytes : Bytes) : Write → Files × Option String
  | .done => (files.write path bytes, none)
  | .failed none error => (files, some error)
  | .failed (some left) error => (files.write path left, some error)

/-- The bytes `write_json` writes. -/
def jsonBytes (value : Value) : Bytes := pretty value ++ [newline]

def EVIDENCE : Path := "evidence.ndjson".toList

def MANIFEST : Path := "manifest.json".toList

def REPLAY : Path := "replay.json".toList

def SUMMARY : Path := "summary.json".toList

structure Sealed where
  reference : Path
  hash : String
  deriving DecidableEq

def Sealed.members (sealed : Sealed) (reference hash : String) : List (String × Value) :=
  [(reference, .string (String.ofList sealed.reference)), (hash, .string sealed.hash)]

def Sealed.artefact (sealed : Sealed) : Value := .object (sealed.members "reference" "content_hash")

structure Plan where
  id : List Char
  response : Option Sealed
  /-- The quote's inspection and its preview. -/
  quote : Option (Sealed × Sealed)
  /-- The labelled text and its manifest, as the label's invocation names them. -/
  label : Option (Sealed × Sealed)
  acquisition : List (String × Value)
  processors : List Value
  gaps : List Value
  rest : List (String × Value)

def Plan.acquisitionValue (plan : Plan) : Value :=
  let response := match plan.response with
    | none => []
    | some response => response.members "response_ref" "response_hash"
  let quote := match plan.quote with
    | none => []
    | some (inspect, preview) =>
      [("quote", .object (inspect.members "inspect_ref" "inspect_hash" ++ preview.members "preview_ref" "preview_hash"))]
  if response ++ quote ++ plan.acquisition = [] then .null else .object (response ++ quote ++ plan.acquisition)

def Plan.value (plan : Plan) : Value :=
  .object ([("id", .string (String.ofList plan.id)), ("acquisition", plan.acquisitionValue), ("processors", .array plan.processors),
    ("gaps", .array plan.gaps)] ++ plan.rest)

structure Execution where
  files : Files
  entries : List Entry

def Execution.record (run : Execution) (attempt : Attempt) (event : String) (payload : Value) : Execution :=
  { run with entries := run.entries ++ [⟨attempt, event, payload⟩] }

structure Sealing where
  bytes : Bytes
  write : Write

def seal_bytes (L : Libraries) (run : Execution) (kind : Kind) (plan : List Char) (sealing : Sealing) :
    Except String (Sealed × Execution) :=
  match write_bytes run.files (kind.reference plan) sealing.bytes sealing.write with
  | (files, none) => .ok (⟨kind.reference plan, L.sha256_digest sealing.bytes⟩, { run with files })
  | (_, some error) => .error error

/-- A label as `provenance::invoke` built it and read it back, its invocation's record and how its files are written. -/
structure Label where
  text : Sealing
  manifest : Sealing
  attempt : Attempt
  rest : List (String × Value)

def labelGap (reference : Path) (error : String) : Value :=
  .object [("reason", writeFailed), ("detail", .string ("The provenance label was built and read back but could not be " ++
    "published to " ++ String.ofList reference ++ ": " ++ error))]

def Label.labelled (L : Libraries) (plan : List Char) (label : Label) : Sealed :=
  ⟨Kind.labelled.reference plan, L.sha256_digest label.text.bytes⟩

def Label.stored (L : Libraries) (plan : List Char) (label : Label) : Sealed :=
  ⟨Kind.manifest.reference plan, L.sha256_digest label.manifest.bytes⟩

def Label.invocation (L : Libraries) (plan : List Char) (label : Label) : Value :=
  .object (("outputs", .array [(label.labelled L plan).artefact, (label.stored L plan).artefact]) :: label.rest)

def Label.publish (plan : List Char) (label : Label) (files : Files) : Files × Option String :=
  match write_bytes files (Kind.labelled.reference plan) label.text.bytes label.text.write with
  | (files, none) => write_bytes files (Kind.manifest.reference plan) label.manifest.bytes label.manifest.write
  | (files, some error) => (files, some error)

structure Assembly where
  invocations : List (Attempt × Value)
  label : Option Label
  acquisition : List (String × Value)
  gaps : List Value
  rest : List (String × Value)
  completed : Attempt

def label_output (L : Libraries) (run : Execution) (plan : Plan) : Option Label → Plan × Execution
  | none => (plan, run)
  | some label =>
    let run := run.record label.attempt "processor_invoked" (label.invocation L plan.id)
    let (files, failure) := label.publish plan.id run.files
    ({ plan with
        label := some (label.labelled L plan.id, label.stored L plan.id)
        processors := plan.processors ++ [label.invocation L plan.id]
        gaps := plan.gaps ++ (failure.map (labelGap (Kind.labelled.reference plan.id))).toList },
      { run with files })

def record_plan (L : Libraries) (run : Execution) (id : List Char) (response : Option Sealed)
    (quote : Option (Sealed × Sealed)) (assembly : Assembly) : Plan × Execution :=
  let run := assembly.invocations.foldl (fun run i => run.record i.1 "processor_invoked" i.2) run
  let (plan, run) := label_output L run
    { id, response, quote, label := none, acquisition := assembly.acquisition, processors := assembly.invocations.map Prod.snd,
      gaps := assembly.gaps, rest := assembly.rest } assembly.label
  (plan, run.record assembly.completed "plan_completed" plan.value)

def baseline_plan (L : Libraries) (run : Execution) (assembly : Assembly) : Plan × Execution :=
  record_plan L run baselineName none none assembly

/-- What a provider's plan meets: the quote's legs, where one completed, and the response, where one arrived. -/
structure Work where
  quote : Option (Sealing × Sealing)
  response : Option Sealing
  assembly : Assembly

def seal_quote (L : Libraries) (run : Execution) (plan : List Char) :
    Option (Sealing × Sealing) → Except String (Option (Sealed × Sealed) × Execution)
  | none => .ok (none, run)
  | some (raw_inspect, raw_preview) => do
    let (inspect, run) ← seal_bytes L run .inspect plan raw_inspect
    let (preview, run) ← seal_bytes L run .preview plan raw_preview
    return (some (inspect, preview), run)

def seal_response (L : Libraries) (run : Execution) (plan : List Char) :
    Option Sealing → Except String (Option Sealed × Execution)
  | none => .ok (none, run)
  | some raw_response => do
    let (response, run) ← seal_bytes L run .response plan raw_response
    return (some response, run)

def provider_plan (L : Libraries) (run : Execution) (provider : List Char) (work : Work) :
    Except String (Plan × Execution) := do
  let (quote, run) ← seal_quote L run (planName provider) work.quote
  let (response, run) ← seal_response L run (planName provider) work.response
  return record_plan L run (planName provider) response quote work.assembly

def provider_plans (L : Libraries) (work : List Plan → List Char → Work) (run : Execution) (plans : List Plan) :
    List (List Char) → Except String (List Plan × Execution)
  | [] => .ok (plans, run)
  | provider :: providers => do
    let (plan, run) ← provider_plan L run provider (work plans provider)
    provider_plans L work run (plans ++ [plan]) providers

structure EvidenceOutcome where
  complete : Bool
  records : Nat
  digest : Option String

structure Closing where
  completed : Attempt
  incomplete : Attempt
  read_back : Bool

def finalise_log (L : Libraries) (log : EvidenceLog) (run_id : String) (closing : Closing) : EvidenceLog × EvidenceOutcome :=
  let id : Value := .object [("run_id", .string run_id)]
  let log := log.append closing.completed "run_completed" id
  let log := if log.writer.pendingGap.isSome then log.append closing.incomplete "evidence_incomplete" id else log
  let read_back := if closing.read_back then some log.file else none
  (log, {
    complete := !log.writer.pendingGap.isSome && read_back.isSome
    records := (read_back.map fun bytes => bytes.count newline).getD 0
    digest := read_back.map L.sha256_digest })

structure Suite where
  providers : List (List Char)
  /-- What the checks of the rest of the suite, and of a replay's recordings, say. -/
  checked : Except String Unit
  /-- Whether a provider has an adapter with a capability the runner can plan. -/
  planned : List Char → Except String Unit

structure World where
  run_id : String
  manifest : Value
  staged : Except String Unit
  manifest_write : Write
  started : Attempt
  source_policy : Option Value
  baseline : Assembly
  work : List Plan → List Char → Work
  replay : Option ((List Plan → Value) × Write)
  closing : Closing
  summary_write : Write
  published : Except String Unit

structure Summary where
  manifest_hash : String
  evidence : EvidenceOutcome
  plans : List Plan

def Summary.value (summary : Summary) : Value :=
  .object [
    ("run", .object [("manifest_hash", .string summary.manifest_hash), ("evidence_complete", .bool summary.evidence.complete)]),
    ("evidence_log", .object [("records", .number (.ofNat summary.evidence.records)),
      ("sha256", (summary.evidence.digest.map Value.string).getD .null)]),
    ("plans", .array (summary.plans.map Plan.value))]

structure RunReport where
  /-- The published directory. -/
  output : Files
  summary : Summary

/-- `write_json(..)?`. -/
def write_json (files : Files) (path : Path) (value : Value) (write : Write) : Except String Files :=
  match write_bytes files path (jsonBytes value) write with
  | (files, none) => .ok files
  | (_, some error) => .error error

def manifestDocument (L : Libraries) (manifest : Value) : Value :=
  .object [("hash", .string (canonical_digest L manifest)), ("manifest", manifest)]

def startedPayload (L : Libraries) (world : World) : Value :=
  .object ([("run_id", .string world.run_id), ("manifest_hash", .string (canonical_digest L world.manifest))] ++
    (world.source_policy.map fun policy => ("source_policy", policy)).toList)

def write_replay (files : Files) (plans : List Plan) : Option ((List Plan → Value) × Write) → Except String Files
  | none => .ok files
  | some (replay_bindings, write) => write_json files REPLAY (replay_bindings plans) write

def execute (L : Libraries) (suite : Suite) (world : World) : Except String RunReport := do
  if suite.providers = [] then throw "a suite must name at least one provider to compare"
  suite.checked
  suite.providers.forM suite.planned
  world.staged
  let files ← write_json (fun _ => none) MANIFEST (manifestDocument L world.manifest) world.manifest_write
  let run : Execution := ⟨files, [⟨world.started, "run_started", startedPayload L world⟩]⟩
  let (baseline, run) := baseline_plan L run world.baseline
  let (plans, run) ← provider_plans L world.work run [baseline] suite.providers
  let files ← write_replay run.files plans world.replay
  let (log, evidence) := finalise_log L (EvidenceLog.create.run run.entries) world.run_id world.closing
  let summary : Summary := ⟨canonical_digest L world.manifest, evidence, plans⟩
  let files ← write_json files SUMMARY summary.value world.summary_write
  world.published
  return ⟨files.write EVIDENCE log.file, summary⟩

end CommonMeasure.Published
