import CommonMeasure.Integrity.Matching
import CommonMeasure.Json.Members

namespace CommonMeasure.Integrity

open Json

/-- What the stages take from the platform: Unicode's tables, SHA-256 and the arithmetic of `f64`. -/
structure Platform (F : Type) extends Letters where
  sha256 : List Char → String
  one : F
  zero : F
  infinity : F
  /-- `>=` -/
  reaches : F → F → Bool
  /-- A probability under a temperature. -/
  scaled : F → F → F
  /-- None for what JSON does not write. -/
  number : F → Option Number
  display : F → String
  /-- With three decimals. -/
  display3 : F → String
  one_reaches : reaches one one = true
  scaled_reaches : reaches (scaled one one) (scaled one one) = true

inductive Question where
  | supported | right_person_quoted | cuts_kept_passage | contradicts
  deriving DecidableEq

def Question.as_str : Question → String
  | .supported => "supported"
  | .right_person_quoted => "right_person_quoted"
  | .cuts_kept_passage => "cuts_kept_passage"
  | .contradicts => "contradicts"

inductive Label where
  | yes | no | not_applicable
  deriving DecidableEq

def Label.as_str : Label → String
  | .yes => "yes"
  | .no => "no"
  | .not_applicable => "not_applicable"

structure Answer (F : Type) where
  question : Question
  label : Label
  probability : Option F
  basis : String
  reason : String
  detail : Value

structure Marker where
  start : Nat
  stop : Nat
  label : String

structure Case where
  id : String
  passage : List Char
  summary : List Char
  markers : List Marker

def num (n : Nat) : Value := .number (Number.ofNat n)

def decimalText (n : Nat) : String := String.ofList ((decimal n).map fun b => Char.ofNat b.toNat)

def Span.value (span : Span) : Value := .object [("start", num span.start), ("end", num span.stop)]

def Platform.float {F : Type} (platform : Platform F) (p : F) : Value := (platform.number p).elim .null .number

def strings (texts : List String) : Value := .array (texts.map .string)

def Platform.hundredths : Platform (Option Nat) where
  toLetters := .ascii
  sha256 text := "sha256:" ++ String.ofList text
  one := some 100
  zero := some 0
  infinity := some 1000000
  reaches p q := p.any fun p => q.any (· ≤ p)
  scaled p _ := p
  number p := p.map Number.ofNat
  display p := p.elim "NaN" decimalText
  display3 p := p.elim "NaN" decimalText
  one_reaches := rfl
  scaled_reaches := rfl

namespace KeepIntact

def NAME : String := "keep-intact-containment/1"

def MINIMUM_RUN_WORDS : Nat := 6

inductive Outcome where
  | outside_text | whole | cut | absent
  deriving DecidableEq

def Outcome.as_str : Outcome → String
  | .outside_text => "outside_text"
  | .whole => "whole"
  | .cut => "cut"
  | .absent => "absent"

def outcome (letters : Letters) (case_ : Case) (marker : Marker) : Outcome :=
  match slice case_.passage marker.start marker.stop with
  | none => .outside_text
  | some kept =>
    if (findRun letters (words kept) (words case_.summary)).isSome then .whole
    else if MINIMUM_RUN_WORDS ≤ (longestCommonRun letters (words case_.summary) (words kept)).1 then .cut
    else .absent

def finding (letters : Letters) (case_ : Case) (index : Nat) (marker : Marker) : Value :=
  let name := (outcome letters case_ marker).as_str
  match slice case_.passage marker.start marker.stop with
  | none => .object [("marker", num index), ("label", .string marker.label), ("outcome", .string name)]
  | some kept =>
    let run := longestCommonRun letters (words case_.summary) (words kept)
    let span := spanOf (words kept) run.2.2 (run.2.2 + run.1)
    .object [("marker", num index), ("label", .string marker.label), ("outcome", .string name),
      ("longest_run_words", num run.1),
      ("run_span", if 0 < run.1 then Span.value ⟨marker.start + span.start, marker.start + span.stop⟩ else .null)]

def firstCut (letters : Letters) (case_ : Case) : Option Nat :=
  case_.markers.findIdx? fun marker => outcome letters case_ marker = .cut

def check {F : Type} (platform : Platform F) (case_ : Case) : Answer F × Option Nat :=
  if case_.markers = [] then
    ({ question := .cuts_kept_passage
       label := .not_applicable
       probability := none
       basis := NAME
       reason := "the release carries no keep-intact marker"
       detail := .null }, none)
  else
    let findings := case_.markers.zipIdx.map fun (marker, index) => finding platform.toLetters case_ index marker
    let cut := firstCut platform.toLetters case_
    ({ question := .cuts_kept_passage
       label := if cut.isSome then .yes else .no
       probability := some (if cut.isSome then platform.one else platform.zero)
       basis := NAME
       reason := match cut with
         | some index => "the sentence reproduces part of kept span " ++ decimalText index ++ " (" ++
             (case_.markers[index]?.map Marker.label).getD "" ++ ") without the whole of it"
         | none => "the sentence reproduces either the whole of each kept span it touches or none of it"
       detail := .object [("markers", .array findings)] }, cut)

theorem check_cut {F : Type} (platform : Platform F) (case_ : Case) :
    (check platform case_).2 = firstCut platform.toLetters case_ := by
  rw [check]
  split
  · rename_i none_
    rw [firstCut, none_, List.findIdx?_nil]
  · rfl

@[simp] theorem check_question {F : Type} (platform : Platform F) (case_ : Case) :
    (check platform case_).1.question = .cuts_kept_passage := by
  rw [check]
  split <;> rfl

end KeepIntact

def WHOLE_NAME : String := "verbatim-whole/1"

def Verbatim (letters : Letters) (sentence text : List Char) : Prop :=
  words sentence ≠ [] ∧
    ∃ before after, keys letters (words text) = before ++ keys letters (words sentence) ++ after

def whole {F : Type} (platform : Platform F) (case_ : Case) : Answer F :=
  let found := (findRun platform.toLetters (words case_.summary) (words case_.passage)).isSome
  { question := .supported
    label := if found then .yes else .no
    probability := some (if found then platform.one else platform.zero)
    basis := WHOLE_NAME
    reason := if found then "the whole sentence occurs verbatim in the release text"
      else "the sentence does not occur whole in the release text"
    detail := .null }

@[simp] theorem whole_question {F : Type} (platform : Platform F) (case_ : Case) :
    (whole platform case_).question = .supported := rfl

@[simp] theorem whole_basis {F : Type} (platform : Platform F) (case_ : Case) : (whole platform case_).basis = WHOLE_NAME := rfl

theorem whole_yes {F : Type} {platform : Platform F} {case_ : Case} :
    (whole platform case_).label = .yes ↔ Verbatim platform.toLetters case_.summary case_.passage := by
  rw [Verbatim, ← findRun_isSome, whole]
  dsimp only
  split <;> simp_all

end CommonMeasure.Integrity
