import CommonMeasure.Integrity.Display

/-!
# Rendering a reply

Each item has one block.
-/

namespace CommonMeasure.Integrity

open Json

def CITED_NAME : String := "cited-passages/1"

section

variable {F : Type} (platform : Platform F)

def hashes (ids : List String) : Value := strings (ids.map fun id => platform.sha256 id.toList)

/-! ### What is asked of the model -/

def citation (release : Release) (reply : Reply) : Item → Option Cited
  | .quote _ _ => none
  | .from_source _ passages => some (cited release passages)
  | .own _ => some (reply_passages release reply)

def Item.text : Item → List Char
  | .quote _ _ => []
  | .from_source text _ => text
  | .own text => text

def itemId (index : Nat) : String := "item-" ++ decimalText index

def modelCases (release : Release) (reply : Reply) : List (Nat × Case) :=
  reply.items.zipIdx.filterMap fun (item, index) =>
    (citation release reply item).bind fun c => c.passage.map fun (passage, markers) =>
      (index, { id := itemId index, passage := passage, summary := item.text, markers := markers })

def modelAnswers (release : Release) (reply : Reply) (model : Model F) : List (Nat × List (Answer F)) × Value :=
  let cases := modelCases release reply
  if cases = [] then ([], model.checker.evidence)
  else
    let answered := model.checker.check_many (cases.map Prod.snd)
    ((cases.map Prod.fst).zip answered.1, answered.2)

/-- A model's answer as it is recorded: the scaled probability of support, the raw one in the detail. -/
def recordAnswer (model : Model F) (c : Cited) (answer : Answer F) : Answer F :=
  let members := membersOf answer.detail
  let raw := if answer.question = .supported then answer.probability else none
  let members := raw.elim members fun p =>
    setMember (setMember members "p_raw" (platform.float p)) "temperature" (platform.float model.temperature)
  let members := setMember (setMember members "cited_passages" (strings c.valid)) "checked_against"
    (strings c.checked_against)
  let members := if c.invalid = [] then members else setMember members "invalid_cited_sha256" (hashes platform c.invalid)
  { answer with
    probability := raw.elim answer.probability fun p => some (platform.scaled p model.temperature)
    detail := .object members }

def notAsked (c : Cited) : Answer F :=
  { question := .supported
    label := .not_applicable
    probability := none
    basis := CITED_NAME
    reason :=
      if c.invalid = [] then "the sentence cites no passage, so the model checker was not asked"
      else "the sentence cites no passage the signed text has (" ++ decimalText c.invalid.length ++
        " ids it lacks), so the model checker was not asked"
    detail := .object [("invalid_cited_sha256", hashes platform c.invalid)] }

def answersOf (model : Model F) (c : Cited) (answered : Option (List (Answer F))) : List (Answer F) :=
  match answered with
  | some answers => answers.map (recordAnswer platform model c)
  | none => [notAsked platform c]

def wholeCase (release : Release) (index : Nat) (text : List Char) : Case where
  id := itemId index
  passage := release.text
  summary := text
  markers := release.signed.markers.map fun m => { start := m.start, stop := m.stop, label := markerLabel m }

structure Asked (F : Type) where
  own : Bool
  text : List Char
  cited : Cited
  answers : List (Answer F)
  cut_at : Option Nat
  /-- The keep-intact stage's. -/
  cut_reason : String

def ask (release : Release) (model : Option (Model F)) (answered : Option (List (Answer F))) (index : Nat) (own : Bool)
    (text : List Char) (c : Cited) : Asked F :=
  let case_ := wholeCase release index text
  let kept := KeepIntact.check platform case_
  { own := own
    text := text
    cited := c
    answers := [six_word_run platform case_, whole platform case_, Attribution.check platform case_, kept.1] ++
      model.elim [] fun model => answersOf platform model c answered
    cut_at := kept.2
    cut_reason := kept.1.reason }

def Asked.kind (asked : Asked F) : String := if asked.own then "own" else "from_source"

variable (release : Release) (model : Option (Model F))

def modelName : Option String := model.map fun m => m.checker.name

def threshold : F := model.elim platform.infinity Model.threshold

def contradiction_threshold : F := model.elim platform.infinity Model.contradiction_threshold

def unconfirmed_why (asked : Asked F) : String :=
  match modelName model with
  | none => "no model checker is configured and the sentence is not whole in the signed text"
  | some name =>
    if asked.cited.passage.isNone then
      ((asked.answers.find? fun a => a.basis = CITED_NAME).map Answer.reason).getD "the sentence cites no passage"
    else match asked.answers.find? fun a => a.question = .supported && a.basis = name with
      | some a =>
        match a.probability with
        | some p => "the model checker's probability of support, " ++ platform.display3 p ++
            " after the temperature, is below the threshold against the passages the sentence cites (" ++
            String.intercalate ", " asked.cited.checked_against ++ ")"
        | none => a.reason
      | none => "the model checker gave no answer for the sentence"

def withheld (outcome : Outcome) (asked : Asked F) (reason : String) : Block F :=
  let fallback := instead platform.toLetters release asked.text asked.cited.valid
  { outcome := outcome
    label := "from the source"
    text := trim (fallback.elim [] Prod.snd)
    passage := fallback.map Prod.fst
    span := (fallback.bind fun (id, _) => release.passage id).map fun (p, _) => Span.trimmed release.text p.start p.stop
    sources := []
    reason := reason ++ if fallback.isNone then "; the release has no passage to show instead" else ""
    answers := asked.answers }

def confirmed (asked : Asked F) (admitted : Admitted F) : Block F :=
  let listed := asked.cited.valid.filterMap fun id => (release.passage id).map fun (p, text) => Source.mk p.id text
  let fallback := instead platform.toLetters release asked.text asked.cited.valid
  { outcome := .shown_confirmed
    label := "confirmed from the article"
    text := asked.text
    passage := none
    span := none
    sources := if listed = [] then fallback.toList.map fun (id, text) => Source.mk id text else listed
    reason := match admitted with
      | .verbatim => "the whole sentence occurs verbatim in the signed text"
      | .model p => "the model checker's probability of support, " ++ platform.display3 p ++
          " after the temperature, is at or above the threshold " ++ platform.display (threshold platform model) ++
          " against the passages the sentence cites"
    answers := asked.answers }

def contradictionNote (asked : Asked F) : String :=
  match model with
  | none => "no model checker is configured, so nothing is withheld for contradiction"
  | some m =>
    if .contradicts ∉ m.checker.questions then
      "the configured checker has no contradiction class, so nothing is withheld for contradiction"
    else match contradiction asked.answers (modelName model) with
      | some c => "the checker's contradiction probability against " ++
          String.intercalate ", " asked.cited.checked_against ++ " is " ++ platform.display3 c ++
          ", below the threshold " ++ platform.display (contradiction_threshold platform model)
      | none => "the checker could not answer the contradiction question for it"

def labelled (outcome : Outcome) (asked : Asked F) (reason : String) : Block F :=
  { outcome := outcome
    label := "not from the article"
    text := asked.text
    passage := none
    span := none
    sources := []
    reason := reason
    answers := asked.answers }

def misattribution (asked : Asked F) : Option String :=
  (asked.answers.find? fun a => a.question = .right_person_quoted && a.label = .no).map Answer.reason

def admission (asked : Asked F) : Option (Admitted F) :=
  if asked.own then none else support platform asked.answers (modelName model) (threshold platform model)

def sentence_block (strict : Bool) (asked : Asked F) : Block F :=
  match asked.cut_at.bind (release.signed.markers[·]?) with
  | some kept =>
    let block : Block F := source_block .withheld_kept (keptLabel kept) release kept.start kept.stop kept.passage
      ("the " ++ asked.kind ++ " sentence was not shown: " ++ asked.cut_reason ++ "; the whole span is shown instead")
    { block with answers := asked.answers }
  | none =>
    match misattribution asked with
    | some reason =>
      withheld platform release .withheld_attribution asked
        ("the " ++ asked.kind ++ " sentence was not shown: " ++ reason ++ "; the source's own passage is shown instead")
    | none =>
      match (contradiction asked.answers (modelName model)).filter
          fun c => platform.reaches c (contradiction_threshold platform model) with
      | some c =>
        withheld platform release .withheld_contradiction asked
          ("the " ++ asked.kind ++ " sentence was not shown: the model checker's probability that it contradicts the " ++
            "passages it was checked against (" ++ String.intercalate ", " asked.cited.checked_against ++ "), " ++
            platform.display3 c ++ ", is at or above the contradiction threshold " ++
            platform.display (contradiction_threshold platform model) ++ "; the source's own passage is shown instead")
      | none =>
        match admission platform model asked with
        | some admitted => confirmed platform release model asked admitted
        | none =>
          if strict then
            withheld platform release .withheld_unconfirmed asked
              (if asked.own then "the source asks for strict display: the assistant's own sentence is not shown; the " ++
                  "source's nearest passage is shown instead"
                else "the source asks for strict display and the sentence was not confirmed (" ++
                  unconfirmed_why platform model asked ++ "); the source's passage is shown instead")
          else if asked.own then
            labelled .shown_own asked
              ("the assistant's own sentence, shown with the label; " ++ contradictionNote platform model asked)
          else
            labelled .shown_unconfirmed asked
              ("shown with the label, not as confirmed: " ++ unconfirmed_why platform model asked)

/-- Nothing the source is sure of stands against the sentence: no cut, no misattribution, no contradiction. -/
structure Unopposed (asked : Asked F) : Prop where
  whole : asked.cut_at.bind (release.signed.markers[·]?) = none
  attributed : misattribution asked = none
  consistent : ∀ c ∈ contradiction asked.answers (modelName model), platform.reaches c (contradiction_threshold platform model) = false

inductive Rule (strict : Bool) (asked : Asked F) : Block F → Prop
  | kept (kept : KeptSpan) (reason : String) (cut : asked.cut_at.bind (release.signed.markers[·]?) = some kept) :
    Rule strict asked { source_block .withheld_kept (keptLabel kept) release kept.start kept.stop kept.passage reason with
      answers := asked.answers }
  | attribution (reason why : String) (misattributed : misattribution asked = some why) :
    Rule strict asked (withheld platform release .withheld_attribution asked reason)
  | contradiction (reason : String) (c : F) (contradicts : contradiction asked.answers (modelName model) = some c)
    (reached : platform.reaches c (contradiction_threshold platform model) = true) :
    Rule strict asked (withheld platform release .withheld_contradiction asked reason)
  | confirmed (admitted : Admitted F) (unopposed : Unopposed platform release model asked)
    (admits : admission platform model asked = some admitted) :
    Rule strict asked (confirmed platform release model asked admitted)
  | unconfirmed (reason : String) (unopposed : Unopposed platform release model asked) (stricter : strict = true)
    (refused : admission platform model asked = none) :
    Rule strict asked (withheld platform release .withheld_unconfirmed asked reason)
  | labelled (outcome : Outcome) (reason : String) (unopposed : Unopposed platform release model asked)
    (looser : strict = false) (refused : admission platform model asked = none)
    (is : outcome = if asked.own then .shown_own else .shown_unconfirmed) :
    Rule strict asked (labelled outcome asked reason)

theorem sentence_ruled (strict : Bool) (asked : Asked F) :
    Rule platform release model strict asked (sentence_block platform release model strict asked) := by
  rw [sentence_block]
  split
  · rename_i kept cut
    exact .kept kept _ cut
  rename_i whole
  split
  · rename_i why misattributed
    exact .attribution _ why misattributed
  rename_i attributed
  split
  · rename_i c contradicts
    obtain ⟨held, reached⟩ := Option.filter_eq_some_iff.mp contradicts
    exact .contradiction _ c held reached
  rename_i consistent
  have unopposed : Unopposed platform release model asked := by
    refine ⟨whole, attributed, fun c held => ?_⟩
    have below := Option.filter_eq_none_iff.mp consistent c held
    simpa using below
  split
  · rename_i admitted admits
    exact .confirmed admitted unopposed admits
  rename_i refused
  split
  · rename_i stricter
    exact .unconfirmed _ unopposed stricter refused
  rename_i looser
  have looser : strict = false := by simpa using looser
  split
  · rename_i own
    exact .labelled _ _ unopposed looser refused (by rw [if_pos own])
  · rename_i own
    exact .labelled _ _ unopposed looser refused (by rw [if_neg own])

def optional (text : Option String) : Value := text.elim .null .string

def Answer.value (answer : Answer F) : Value :=
  .object ([("question", .string answer.question.as_str), ("label", .string answer.label.as_str),
    ("probability", answer.probability.elim .null platform.float), ("basis", .string answer.basis),
    ("reason", .string answer.reason)] ++
      match answer.detail with
      | .null => []
      | detail => [("detail", detail)])

def shown_passage (block : Block F) : Value :=
  match block.passage with
  | some id => if (release.passage id).isSome then .string id else .null
  | none => .null

def quoteRecord (index : Nat) (passage : String) (sentence : Option Nat) (block : Block F) : Value :=
  .object [("index", num index), ("kind", .string "quote"), ("sentence", sentence.elim .null num),
    ("outcome", .string block.outcome.as_str), ("shown_passage", shown_passage release block),
    ("shown_span", block.span.elim .null Span.value), ("reason", .string block.reason),
    if (release.passage passage).isSome then ("passage", .string passage)
    else ("passage_sha256", .string (platform.sha256 passage.toList))]

def sentenceRecord (index : Nat) (asked : Asked F) (block : Block F) : Value :=
  .object ([("index", num index), ("kind", .string asked.kind), ("text_sha256", .string (platform.sha256 asked.text)),
    ("text_bytes", num (byteLen asked.text)), ("outcome", .string block.outcome.as_str),
    ("shown_passage", optional block.passage), ("shown_span", block.span.elim .null Span.value),
    ("sources", strings (block.sources.map Source.passage)), ("reason", .string block.reason),
    ("answers", .array (block.answers.map (Answer.value platform)))] ++
      if asked.own then []
      else [("cited_passages", strings asked.cited.valid), ("invalid_cited_sha256", hashes platform asked.cited.invalid)])

end

section

variable {F : Type} (platform : Platform F)

def displayMode (release : Release) : String := if release.signed.display_mode = LABELLED then LABELLED else STRICT

def renderItem (release : Release) (reply : Reply) (model : Option (Model F)) (answered : List (Nat × List (Answer F)))
    (index : Nat) (item : Item) : Block F × Value :=
  let strict := displayMode release = STRICT
  let sentence (own : Bool) (text : List Char) (c : Cited) : Block F × Value :=
    let asked := ask platform release model ((answered.find? (·.1 = index)).map Prod.snd) index own text c
    let block := sentence_block platform release model strict asked
    (block, sentenceRecord platform index asked block)
  match item with
  | .quote passage nth =>
    let block := quote platform.toLetters release passage nth
    (block, quoteRecord platform release index passage nth block)
  | .from_source text passages => sentence false text (cited release passages)
  | .own text => sentence true text (reply_passages release reply)

def stagesValue : Value :=
  .array ([(six_word_name, Question.supported), (WHOLE_NAME, .supported), (Attribution.NAME, .right_person_quoted),
    (KeepIntact.NAME, .cuts_kept_passage)].map fun (name, question) =>
      .object [("name", .string name), ("questions", strings [question.as_str])])

def modelValue (model : Model F) (evidence : Value) : Value :=
  .object ((membersOf evidence).foldl (fun members (key, value) => setMember members key value)
    [("manifest", model.checker.manifest), ("questions", strings (model.checker.questions.map Question.as_str)),
      ("threshold", platform.float model.threshold), ("temperature", platform.float model.temperature),
      ("contradiction_threshold", platform.float model.contradiction_threshold)])

def render (release : Release) (reply : Reply) (model : Option (Model F)) : Rendered F × Value :=
  let answered := model.map (modelAnswers release reply)
  let rendered := reply.items.zipIdx.map fun (item, index) =>
    renderItem platform release reply model ((answered.map Prod.fst).getD []) index item
  let blocks := rendered.map Prod.fst
  let counts := blocks.foldl (fun counts block => counts.add block.outcome) Counts.one_fetch
  ({ display_mode := displayMode release, blocks := blocks, counts := counts },
    .object [("verification", .string "verified"), ("display_mode_requested", .string release.signed.display_mode),
      ("display_mode", .string (displayMode release)), ("stages", stagesValue),
      ("model", match model with
        | some m => modelValue platform m ((answered.map Prod.snd).getD .null)
        | none => .null),
      ("withholds_for_contradiction", .bool (model.any fun m => .contradicts ∈ m.checker.questions)),
      ("items", .array (rendered.map Prod.snd)), ("count_names", strings Counts.NAMES),
      ("counts_vector", .array (counts.as_vec.map fun n => num n.toNat))])

def invoke_with (read : Read) (reply : Reply) (model : Option (Model F)) : Value × Option (Rendered F) :=
  match read.verification with
  | .verified =>
    let (rendered, record) := render platform read.release reply model
    (record, some rendered)
  | .missing => (.object [("verification", .string "missing"), ("displayed", .bool false)], none)
  | .failed => (.object [("verification", .string "failed"), ("displayed", .bool false)], none)

end

end CommonMeasure.Integrity
