import Mathlib.Data.List.Lex
import Mathlib.Data.Prod.Lex
import Mathlib.Data.Rat.Floor
import Mathlib.Data.String.Basic

namespace CommonMeasure.Routes

structure Money where
  currency : String
  micros : Nat
deriving DecidableEq

structure MeasuredCoverage where
  fraction : ℚ
  rubric : String
deriving DecidableEq

structure Candidate where
  plan_id : String
  completed : Bool
  latency_ms : Option Nat
  observed_cost : Option Money
  coverage : Option MeasuredCoverage
  freshness : Option ℚ
deriving DecidableEq

structure Selection where
  plan_id : Option String
  method : String
  explanation : String
  unavailable_inputs : List String
deriving DecidableEq

inductive Objective where
  | maximiseQuality
  | minimiseCost
  | minimiseLatency
  | weighted (quality coverage freshness cost latency policy_risk : ℚ)
deriving DecidableEq

def joined (separator : String) (texts : List String) : String := separator.intercalate texts

def carries (count : Nat) : String := if count = 1 then "ies" else "y"

def two_places (figure : ℚ) : String :=
  let scaled := |figure| * 100
  let whole := scaled.floor.toNat
  let rest := scaled - whole
  let rounded := if 1 / 2 < rest ∨ rest = 1 / 2 ∧ whole % 2 = 1 then whole + 1 else whole
  (if figure < 0 then "-" else "") ++ toString (rounded / 100) ++ "." ++
    toString (rounded / 10 % 10) ++ toString (rounded % 10)

def no_candidates : Selection :=
  ⟨none, "no-candidates", "No plan completed, so there was nothing to choose between.", []⟩

def abstain (method explanation : String) (unavailable_inputs : List String) : Selection :=
  ⟨none, method, explanation, unavailable_inputs⟩

def without (candidates : List Candidate) (has : Candidate → Bool) : List String :=
  (candidates.filter fun candidate => !has candidate).map Candidate.plan_id

def done (candidates : List Candidate) : List Candidate := candidates.filter (·.completed)

def timed (candidate : Candidate) : Option (Nat ×ₗ String) := candidate.latency_ms.map fun ms => toLex (ms, candidate.plan_id)

def priced (candidate : Candidate) : Option (Nat ×ₗ String) :=
  candidate.observed_cost.map fun money => toLex (money.micros, candidate.plan_id)

def select_on_latency (candidates : List Candidate) (replayed : Bool) : Selection :=
  if replayed then
    abstain "minimum observed latency"
      ("A replayed exchange's latency times the loopback origin serving the recording, not the recorded provider, so a replay " ++
        "run has no latency measurement of the providers to rank on.")
      ["latency"]
  else if done candidates = [] then no_candidates
  else match ((done candidates).mapM timed).bind List.min? with
    | some least =>
      ⟨some (ofLex least).2, "minimum observed latency",
        "Latency is measured by this runtime around each exchange, so the objective is computable from observed evidence alone.", []⟩
    | none => abstain "minimum observed latency" "At least one completed plan reported no latency." ["latency"]

def neighbours_differ : List String → Bool
  | first :: second :: rest => first ≠ second || neighbours_differ (second :: rest)
  | _ => false

def select_on_cost (candidates : List Candidate) : Selection :=
  if done candidates = [] then no_candidates
  else
    let currencies := (done candidates).filterMap fun candidate => candidate.observed_cost.map Money.currency
    if currencies.length ≠ (done candidates).length then
      abstain "minimum observed cost"
        (joined ", " (without (done candidates) fun candidate => candidate.observed_cost.isSome) ++
          " reported no charge, and an unreported charge is unknown rather than free.")
        ["observed_cost"]
    else if neighbours_differ currencies then
      abstain "minimum observed cost"
        "Completed plans reported charges in different currencies and this runtime holds no rate source."
        ["currency_conversion"]
    else match ((done candidates).filterMap priced).min? with
      | some least =>
        ⟨some (ofLex least).2, "minimum observed cost",
          "Every completed plan reported a charge in the same currency, so the objective is computable from observed evidence alone.", []⟩
      | none => abstain "minimum observed cost" "No completed plan reported a charge." ["observed_cost"]

/-- `Vec::dedup`. -/
def dedup : List String → List String
  | first :: second :: rest => if first = second then dedup (second :: rest) else first :: dedup (second :: rest)
  | texts => texts

/-- Both fractions are measured wherever they carry weight: `select` has looked. -/
def score (coverage freshness : ℚ) (candidate : Candidate) : ℚ :=
  (if coverage ≠ 0 then coverage * ((candidate.coverage.map MeasuredCoverage.fraction).getD 0) else 0) +
    if freshness ≠ 0 then freshness * candidate.freshness.getD 0 else 0

def ranks (left right : ℚ × Candidate) : Bool :=
  right.1 < left.1 || (left.1 = right.1 && left.2.plan_id ≤ right.2.plan_id)

def rubric_of (candidate : Candidate) : String := (candidate.coverage.map MeasuredCoverage.rubric).getD "unknown"

def figures (coverage freshness : ℚ) (candidate : Candidate) : List String :=
  (if coverage ≠ 0 then candidate.coverage.toList.map fun measured => "coverage " ++ two_places measured.fraction else []) ++
    if freshness ≠ 0 then candidate.freshness.toList.map fun fraction => "freshness " ++ two_places fraction else []

def rank_on_fractions (candidates : List Candidate) (coverage freshness : ℚ) : Selection :=
  let rubrics := dedup ((candidates.filterMap fun candidate => candidate.coverage.map MeasuredCoverage.rubric).mergeSort (· ≤ ·))
  if coverage ≠ 0 ∧ 1 < rubrics.length then
    abstain "weighted utility"
      ("The candidates' coverage was measured against different rubrics (" ++ joined ", " rubrics ++
        "), and fractions of different rubrics are not one scale.")
      ["coverage"]
  else
    let terms := (if coverage ≠ 0 then ["coverage"] else []) ++ if freshness ≠ 0 then ["freshness"] else []
    let scored := (candidates.map fun candidate => (score coverage freshness candidate, candidate)).mergeSort ranks
    match scored with
    -- `select` gives this arm some candidate
    | [] => no_candidates
    | (top_score, winner) :: _ =>
      let tied := (scored.filter fun entry => entry.1 = top_score).map fun entry => entry.2.plan_id
      let tie :=
        if 1 < tied.length then
          " " ++ joined ", " tied ++ " tie at " ++ two_places top_score ++
            "; the tie resolves to the first plan id in lexical " ++
            "order, a deterministic rule rather than a measured preference."
        else ""
      let basis :=
        if coverage ≠ 0 then
          "coverage against rubric " ++ rubric_of winner ++
            if freshness ≠ 0 then " and freshness against the suite's as_of date" else ""
        else "freshness against the suite's as_of date"
      let ranking := joined "; " (scored.map fun entry => entry.2.plan_id ++ " " ++ two_places entry.1 ++ " (" ++
        joined ", " (figures coverage freshness entry.2) ++ ")")
      ⟨some winner.plan_id, "maximum weighted utility over measured " ++ joined " and " terms,
        "Every candidate's admitted window is measured this run — " ++ basis ++ " — and " ++
          (if coverage ≠ 0 ∧ freshness ≠ 0 then "both terms are" else "that term is a") ++ " unitless fraction" ++
          (if coverage ≠ 0 ∧ freshness ≠ 0 then "s" else "") ++ ", so the objective is arithmetic on the declared weights: " ++
          ranking ++ ". The ranking reads the evaluation records of the admitted windows, not the answers." ++ tie,
        []⟩

def absent (candidates : List Candidate) (quality coverage freshness policy_risk : ℚ) : List (String × String) :=
  let uncovered := without candidates fun candidate => candidate.coverage.isSome
  let undated := without candidates fun candidate => candidate.freshness.isSome
  (if quality ≠ 0 then
    [("quality", "quality is a judgment that needs a judge, and this runtime seals none (the installed evaluators measure " ++
      "citation support, rubric coverage and declared-date freshness, none of which is quality)")]
    else []) ++
  (if coverage ≠ 0 ∧ uncovered ≠ [] then
    [("coverage", joined ", " uncovered ++ " carr" ++ carries uncovered.length ++ " no measured coverage (coverage is measured " ++
      "only against a suite-declared coverage_rubric, over an assembled window)")]
    else []) ++
  (if freshness ≠ 0 ∧ undated ≠ [] then
    [("freshness", joined ", " undated ++ " carr" ++ carries undated.length ++ " no measured freshness (freshness is measured " ++
      "only against a suite-declared as_of date, over dated window parts)")]
    else []) ++
  if policy_risk ≠ 0 then [("policy_risk", "policy risk has no measure beyond the recorded gaps")] else []

def select (objective : Objective) (candidates : List Candidate) (replayed : Bool) : Selection :=
  if candidates = [] then no_candidates
  else match objective with
    | .minimiseLatency => select_on_latency candidates replayed
    | .minimiseCost => select_on_cost candidates
    | .maximiseQuality =>
      abstain "maximum measured quality"
        ("Quality of the answer is a judgment, and every installed evaluator measures something narrower: grounding measures " ++
          "citation support, and — where the suite declares a rubric and an as-of date — coverage and freshness measure the " ++
          "admitted window. None of those is a quality figure, and mapping one onto quality would publish a verdict the run did " ++
          "not measure.")
        ["quality"]
    | .weighted quality coverage freshness cost latency policy_risk =>
      let missing := absent candidates quality coverage freshness policy_risk
      if missing ≠ [] then
        abstain "weighted utility"
          ("The objective puts weight on measurements this run did not obtain: " ++ joined "; " (missing.map Prod.snd) ++
            ". Substituting the terms the run does have would publish a verdict it did not measure.")
          (missing.map Prod.fst)
      else if coverage ≠ 0 ∨ freshness ≠ 0 then
        if cost ≠ 0 ∨ latency ≠ 0 then
          abstain "weighted utility"
            ("Coverage and freshness are measured this run as unitless fractions, and the objective also weights cost or latency; " ++
              "a fraction has no price and no duration, and this runtime holds no recorded exchange rate between them.")
            ((if cost ≠ 0 then ["fraction_cost_exchange_rate"] else []) ++
              if latency ≠ 0 then ["fraction_latency_exchange_rate"] else [])
        else rank_on_fractions candidates coverage freshness
      else if cost ≠ 0 then
        if latency ≠ 0 then
          abstain "weighted utility"
            ("Cost and latency are weighted together and this runtime has no recorded exchange rate between a currency and a " ++
              "millisecond.")
            ["cost_latency_exchange_rate"]
        else select_on_cost candidates
      else if latency ≠ 0 then select_on_latency candidates replayed
      else
        abstain "weighted utility"
          "No term in this objective carries weight, so it expresses no preference between the completed plans." []

end CommonMeasure.Routes
