import CommonMeasure.Integrity.Filter
import CommonMeasure.Integrity.Render

namespace CommonMeasure.Integrity.Sidecar

open Json

def MAX_CASES : Nat := 1024

def NAME : String := "sidecar-model/1"

def QUESTIONS : String :=
  "supported: the passage supports everything in the sentence; contradicts: the passage states otherwise on a claim in " ++
    "the sentence"

structure Network where
  provider : String
  origins : List String

structure Prepared where
  questions : List String
  network : Option Network
  /-- The edge's own manifest with the sidecar's beside it. -/
  identity : Value
  admitting_term : Option Value
  asks : questions = ["supported"] ∨ questions = ["supported", "contradicts"]

def Prepared.admitted (p : Prepared) (unix credential : Bool) : Except Fault Unit :=
  if p.network.isSome && p.admitting_term.isNone then .error .processor_egress_refused
  else if p.network.isSome && !credential then .error .credential_unset
  else if !unix then .error .process_groups_unavailable
  else .ok ()

inductive Received where
  | line (value : Value)
  | fault (fault : Fault)
  | late
  | closed

inductive Written where
  | all | failed | late

inductive Exit where
  | success | failure | late

structure Exchange where
  unix : Bool
  /-- The credential's variable is set, before the run and after it. -/
  credential : Bool
  credential_after : Bool
  /-- Where it did not start, whether it was launched. -/
  start : Option Bool
  first : Received
  reply : Nat → Received
  last : Received
  written : Written
  after : Received
  exit : Exit
  hello_ms : Nat
  total_ms : Nat

def receive (late : Fault) : Received → Except Fault Value
  | .line value => .ok value
  | .fault fault => .error fault
  | .late => .error late
  | .closed => .error .exited

structure Ran where
  result : Except Fault (List Value)
  launched : Bool
  hello : Value := .null
  bye : Value := .null
  hello_ms : Option Nat := none
  gaps : List Fault := []

def KNOWN : List String := ["id", "p_supported", "p_contradicts", "error", "latency_ms", "detail"]

def isStrings (asked : List String) : Value → Bool
  | .array items => items.map Value.asStr = asked.map some
  | _ => false

section

variable {F : Type} (platform : Boundary F)

def sole (name : String) (value : Value) : Option Value :=
  match entries value with
  | [(key, held)] => if key = name then some held else none
  | _ => none

def greet (p : Prepared) (first : Received) : Except Fault (Value × List Fault) :=
  match receive .hello_timeout first with
  | .error .exited => .error .start_failed
  | .error fault => .error fault
  | .ok first =>
    match (sole "hello" first).filter fun raw => raw matches .object _ && isStrings p.questions (raw.get "questions") with
    | none => .error .hello_invalid
    | some raw => .ok (filter_hello platform raw)

def isIdentified (hello : Value) : Bool :=
  (membersOf hello).any (·.1 = "model") && (membersOf hello).any (·.1 = "family")

def replies (reply : Nat → Received) : List (Case × Nat) → Except Fault (List Value) × List Fault
  | [] => (.ok [], [])
  | (case_, place) :: cases =>
    match receive .batch_timeout (reply place) with
    | .error fault => (.error fault, [])
    | .ok value =>
      if (value.get "id").asStr ≠ some case_.id then (.error .answer_order_invalid, [])
      else
        let later := replies reply cases
        ((later.1.map (value :: ·)),
          (if (membersOf value).any (·.1 ∉ KNOWN) then [.output_dropped] else []) ++ later.2)

def finish (x : Exchange) : Except Fault Unit :=
  match x.written with
  | .late => .error .batch_timeout
  | .failed => .error .write_failed
  | .all =>
    match receive .batch_timeout x.after with
    | .error .exited =>
      match x.exit with
      | .success => .ok ()
      | .failure => .error .exit_failed
      | .late => .error .batch_timeout
    | .error fault => .error fault
    | .ok _ => .error .protocol_extra_output

def run (p : Prepared) (cases : List Case) (x : Exchange) : Ran :=
  if MAX_CASES < cases.length then { result := .error .batch_too_large, launched := false }
  else match x.start with
  | some launched => { result := .error .start_failed, launched := launched }
  | none =>
    match greet platform p x.first with
    | .error fault => { result := .error fault, launched := true }
    | .ok (hello, gaps) =>
      if isIdentified hello then
        let replied := replies x.reply cases.zipIdx
        let held : Ran :=
          { result := .error .bye_invalid
            launched := true
            hello := hello
            hello_ms := some x.hello_ms
            gaps := gaps ++ replied.2 }
        match replied.1 with
        | .error fault => { held with result := .error fault }
        | .ok values =>
          match receive .batch_timeout x.last with
          | .error fault => { held with result := .error fault }
          | .ok last =>
            match (sole "bye" last).filter fun raw => raw matches .object _ with
            | none => held
            | some raw =>
              let bye := filter_detail platform raw
              { held with
                result := (finish x).map fun _ => values
                bye := bye.1
                gaps := held.gaps ++ bye.2 }
      else { result := .error .hello_invalid, launched := true, hello := hello, gaps := gaps ++ [.output_dropped] }

def asF64 : Value → Option F
  | .number n => some (platform.asF64 n)
  | _ => none

def validate_reply (reply : Value) (contradiction : Bool) : Option Fault :=
  match reply with
  | .object members =>
    if members.any (·.1 = "error") then some .item_error
    else
      let contradicts := reply.get "p_contradicts"
      if !isProbability platform (reply.get "p_supported") || (contradiction && !isProbability platform contradicts) ||
          (!isNull contradicts && !isProbability platform contradicts) || (reply.get "latency_ms").asU64.isNone then
        some .answer_malformed
      else none
  | _ => some .answer_malformed

def probabilityField : Question → String
  | .supported => "p_supported"
  | _ => "p_contradicts"

def answered (reply detail : Value) (fault : Option Fault) (question : Question) : Answer F :=
  let probability := if fault.isNone then asF64 platform (reply.get (probabilityField question)) else none
  { question := question
    label := probability.elim .not_applicable fun p => if platform.reaches p platform.half then .yes else .no
    probability := probability
    basis := NAME
    reason := fault.elim "sidecar_probability_reported" Fault.as_str
    detail := .object [("reported", detail), ("latency_ms", (reply.get "latency_ms").asU64.elim .null num)] }

def unanswered (fault : Fault) (question : Question) : Answer F :=
  { question := question
    label := .not_applicable
    probability := none
    basis := NAME
    reason := fault.as_str
    detail := .null }

def questionsOf (prepared : Except Fault Prepared) : List Question :=
  match prepared with
  | .ok p => if "contradicts" ∈ p.questions then [.supported, .contradicts] else [.supported]
  | .error _ => [.supported, .contradicts]

def readReply (questions : List Question) (reply : Value) : List (Answer F) × List Fault :=
  let fault := validate_reply platform reply (.contradicts ∈ questions)
  let detail := filter_detail platform (reply.get "detail")
  (questions.map (answered platform reply detail.1 fault), fault.toList ++ detail.2)

def request (case_ : Case) : Value :=
  .object [("id", .string case_.id), ("passage", .string (String.ofList case_.passage)),
    ("summary", .string (String.ofList case_.summary))]

def digest_of (value : Value) : String := platform.sha256 (platform.canonical_json value)

def requestRecord (case_ : Case) : Value :=
  .object [("request_sha256", .string (digest_of platform (request case_))),
    ("passage_sha256", .string (platform.sha256 case_.passage)),
    ("sentence_sha256", .string (platform.sha256 case_.summary))]

def egress (p : Prepared) (n : Network) (x : Exchange) (cases : List Case) (hello bye : Value) : Value :=
  .object [("provider", .string n.provider), ("origins", strings n.origins), ("confinement", .string "declared"),
    ("admitting_term", p.admitting_term.getD .null),
    ("admitted", .bool (p.admitted x.unix x.credential_after matches .ok _)), ("model", hello.get "model"),
    ("question_text_sha256", .string (platform.sha256 QUESTIONS.toList)), ("threshold", .null),
    ("requests", .array (cases.map (requestRecord platform))), ("case_count", num cases.length), ("usage", bye),
    ("cost", .null)]

def attempt (prepared : Except Fault Prepared) (x : Exchange) (cases : List Case) : Ran :=
  match prepared with
  | .error fault => { result := .error fault, launched := false }
  | .ok p =>
    match p.admitted x.unix x.credential with
    | .error fault => { result := .error fault, launched := false }
    | .ok () => run platform p cases x

def network (prepared : Except Fault Prepared) : Option (Prepared × Network) :=
  prepared.toOption.bind fun p => p.network.map (p, ·)

def check_many (prepared : Except Fault Prepared) (x : Exchange) (cases : List Case) : List (List (Answer F)) × Value :=
  let ran := attempt platform prepared x cases
  let questions := questionsOf prepared
  let read : List (List (Answer F)) × List Fault := match ran.result with
    | .ok values =>
      let read := values.map (readReply platform questions)
      (read.map Prod.fst, read.flatMap Prod.snd)
    | .error fault => (cases.map fun _ => questions.map (unanswered fault), [fault])
  let cost := if ran.launched && (network prepared).isSome then [Fault.cost_unknown] else []
  let gaps := (((ran.gaps ++ read.2 ++ cost).map Fault.as_str).mergeSort fun a b => decide (a ≤ b)).dedup
  let failed := (ran.result matches .error _) || read.1.flatten.any fun a => a.probability.isNone
  (read.1, .object ([("hello", ran.hello), ("bye", ran.bye),
    ("outcome", .string (if failed then "failed" else "completed")), ("gaps", strings gaps),
    ("timings", .object [("hello_ms", ran.hello_ms.elim .null num), ("total_ms", num x.total_ms)])] ++
      ((network prepared).toList.map fun (p, n) => ("egress", egress platform p n x cases ran.hello ran.bye))))

def manifest (prepared : Except Fault Prepared) : Value :=
  match prepared with
  | .ok p => p.identity
  | .error fault => .object [("gap", .string fault.as_str)]

def checker (prepared : Except Fault Prepared) (x : Exchange) : ModelChecker F where
  name := NAME
  manifest := manifest prepared
  questions := questionsOf prepared
  check_many := check_many platform prepared x
  evidence := .object [("outcome", .string "not_run"), ("hello", .null), ("bye", .null), ("gaps", .array [])]

structure ConfiguredModel (F : Type) where
  prepared : Except Fault Prepared
  threshold : F
  temperature : F
  contradiction_threshold : F
  calibration : Value

def ConfiguredModel.model (c : ConfiguredModel F) (x : Exchange) : Model F where
  checker := checker platform c.prepared x
  threshold := c.threshold
  temperature := c.temperature
  contradiction_threshold := c.contradiction_threshold

def isObject : Value → Bool
  | .object _ => true
  | _ => false

def ConfiguredModel.calibrated (c : ConfiguredModel F) (model : Value) : Value :=
  let members := setMember (membersOf model) "calibration" c.calibration
  let egress := (Value.object members).get "egress"
  .object (if isObject egress then
    setMember members "egress" (.object (setMember (membersOf egress) "threshold" (platform.float c.threshold)))
    else members)

def ConfiguredModel.configured_manifest (c : ConfiguredModel F) (p : Prepared) (rules : String) (calibration : Value) : Value :=
  .object (setMember (membersOf p.identity) "configuration_digest" (.string (digest_of platform (.object
    [("rules", .string rules), ("sidecar", p.identity.get "implementation"), ("threshold", platform.float c.threshold),
      ("temperature", platform.float c.temperature),
      ("contradiction_threshold", platform.float c.contradiction_threshold), ("calibration", calibration)]))))

def ConfiguredModel.invoke (c : ConfiguredModel F) (x : Exchange) (rules : String) (read : Read) (reply : Reply) :
    Value × Option (Rendered F) :=
  let (detail, rendered) := invoke_with platform.toPlatform read reply (some (c.model platform x))
  let model := detail.get "model"
  if isObject model then
    let model := c.calibrated platform model
    let model := match c.prepared with
      | .ok p => Value.object (setMember (membersOf model) "manifest"
          (c.configured_manifest platform p rules (model.get "calibration")))
      | .error _ => model
    (.object (setMember (membersOf detail) "model" model), rendered)
  else (detail, rendered)

end

end CommonMeasure.Integrity.Sidecar
