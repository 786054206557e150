import CommonMeasure.Integrity.Kept
import CommonMeasure.Json.Strings

namespace CommonMeasure.Integrity

open Json

def KEYS : List String :=
  ["reference", "content_hash", "start", "end", "claim_start", "claim_end", "words", "index", "verdict", "basis",
    "evidence", "configuration_digest", "claims", "marker", "label", "outcome", "longest_run_words", "run_span", "markers",
    "quotations", "quote", "in_passage", "passage_span", "speaker_sha256", "passage_attributes_to", "named_sha256",
    "sentence", "matched_by", "speaker_named", "speaker", "reason", "sha256", "p_raw", "temperature", "cited_passages",
    "checked_against", "invalid_cited_sha256", "question", "probability", "detail", "kind", "shown_passage", "shown_span",
    "passage", "passage_sha256", "text_sha256", "text_bytes", "sources", "answers", "name", "questions", "manifest",
    "threshold", "contradiction_threshold", "verification", "displayed", "display_mode_requested", "display_mode", "stages",
    "model", "withholds_for_contradiction", "items", "count_names", "counts_vector"]

def WORDS : List String :=
  ["", "supported", "contradicted", "unsupported", "window", "right_person_quoted", "cuts_kept_passage", "contradicts",
    "yes", "no", "not_applicable", "outside_text", "whole", "cut", "absent", "pronoun", "passage attribution",
    "pronoun in the passage", "name near the quotation", "quote_shown", "quote_expanded_to_kept", "quote_refused",
    "shown_confirmed", "shown_own", "shown_unconfirmed", "withheld_contradiction", "withheld_attribution", "withheld_kept",
    "withheld_unconfirmed", "fetch", "quote", "own", "from_source", "labelled", "strict", "verified", "missing", "failed",
    "fidelity-verifier/1", "keep-intact-containment/1", "verbatim-whole/1", "attribution-lookup/1", "cited-passages/1"]

def PHRASES : List String :=
  ["", "item-", ", ", ")", " (", "own", "from_source", "the sentence is too short to be a claim",
    "a run of at least six consecutive words of the sentence occurs in the release text",
    "no run of six consecutive words of the sentence occurs in the release text; a paraphrase is invisible to " ++
      "this stage", "the release carries no keep-intact marker", "the sentence reproduces part of kept span ",
    ") without the whole of it", "the sentence reproduces either the whole of each kept span it touches or none of it",
    "the whole sentence occurs verbatim in the release text", "the sentence does not occur whole in the release text",
    "the quotation does not occur in the passage", "the passage names the sentence's speaker beside the quotation",
    "the passage does not name the sentence's speaker beside the quotation", "the sentence quotes nobody",
    "the passage attributes the quotation by a pronoun the lookup cannot resolve",
    "the sentence quotes without naming a speaker", "the sentence attributes the quotation by pronoun",
    "the ", " cut a passage the source keeps intact; the whole span is shown instead", "quoted words", "requested span",
    "the quoted words occur whole in the signed text and are rendered from it",
    "the signed text has no passage by the id the quote names", "passage ", " has no sentence ",
    "rendered from the signed text by passage id",
    "the sentence cites no passage, so the model checker was not asked",
    "the sentence cites no passage the signed text has (", " ids it lacks), so the model checker was not asked",
    "no model checker is configured and the sentence is not whole in the signed text", "the sentence cites no passage",
    "the model checker's probability of support, ",
    " after the temperature, is below the threshold against the passages the sentence cites (",
    "the model checker gave no answer for the sentence", "; the release has no passage to show instead",
    "the whole sentence occurs verbatim in the signed text", " after the temperature, is at or above the threshold ",
    " against the passages the sentence cites",
    "no model checker is configured, so nothing is withheld for contradiction",
    "the configured checker has no contradiction class, so nothing is withheld for contradiction",
    "the checker's contradiction probability against ", " is ", ", below the threshold ",
    "the checker could not answer the contradiction question for it", " sentence was not shown: ",
    "; the whole span is shown instead", "; the source's own passage is shown instead",
    " sentence was not shown: the model checker's probability that it contradicts the ",
    "passages it was checked against (", "), ", ", is at or above the contradiction threshold ",
    "the source asks for strict display: the assistant's own sentence is not shown; the ",
    "source's nearest passage is shown instead", "the source asks for strict display and the sentence was not confirmed (",
    "); the source's passage is shown instead", "the assistant's own sentence, shown with the label; ",
    "shown with the label, not as confirmed: "]

structure Added where
  key : String → Prop
  string : String → Prop
  reason : String → Prop

inductive Phrased {F : Type} (platform : Platform F) (signed : Signed) (added : Added) : String → Prop
  | phrase {s : String} : s ∈ PHRASES → Phrased platform signed added s
  | count (n : Nat) : Phrased platform signed added (decimalText n)
  | probability (p : F) : Phrased platform signed added (platform.display p)
  | rounded (p : F) : Phrased platform signed added (platform.display3 p)
  | passage {p : Passage} : p ∈ signed.passages → Phrased platform signed added p.id
  | kept {m : KeptSpan} : m ∈ signed.markers → Phrased platform signed added m.label
  | keptPassage {m : KeptSpan} : m ∈ signed.markers → Phrased platform signed added m.passage
  | reason {s : String} : added.reason s → Phrased platform signed added s
  | append {s t : String} : Phrased platform signed added s → Phrased platform signed added t →
    Phrased platform signed added (s ++ t)

inductive Clean {F : Type} (platform : Platform F) (signed : Signed) (added : Added) : String → Prop
  | word {s : String} : s ∈ WORDS → Clean platform signed added s
  | mode : Clean platform signed added signed.display_mode
  | phrased {s : String} : Phrased platform signed added s → Clean platform signed added s
  | digest (text : List Char) : Clean platform signed added (platform.sha256 text)
  | added {s : String} : added.string s → Clean platform signed added s

def recordAllowed {F : Type} (platform : Platform F) (signed : Signed) (added : Added) : Allowed where
  key s := s ∈ KEYS ∨ added.key s
  string := Clean platform signed added
  length _ := True

section

variable {F : Type} {platform : Platform F} {signed : Signed} {added : Added}

@[simp] theorem recordAllowed_key {s : String} :
    (recordAllowed platform signed added).key s ↔ s ∈ KEYS ∨ added.key s := Iff.rfl

@[simp] theorem recordAllowed_string {s : String} :
    (recordAllowed platform signed added).string s ↔ Clean platform signed added s := Iff.rfl

@[simp] theorem recordAllowed_length {n : Nat} : (recordAllowed platform signed added).length n := trivial

/-! ### Parts of a record -/

theorem phrased_intercalate {separator : String} (between : Phrased platform signed added separator) {texts : List String}
    (phrased : ∀ s ∈ texts, Phrased platform signed added s) :
    Phrased platform signed added (String.intercalate separator texts) := by
  induction texts with
  | nil => exact .phrase (by simp [PHRASES])
  | cons s texts ih =>
    cases texts with
    | nil => simpa using phrased
    | cons t texts =>
      rw [String.intercalate_cons_cons]
      exact ((phrased s List.mem_cons_self).append between).append (ih fun u later => phrased u (List.mem_cons_of_mem s later))

@[simp] theorem within_num {allowed : Allowed} {n : Nat} : (num n).Within allowed := .number

@[simp] theorem within_float {allowed : Allowed} {p : F} : (platform.float p).Within allowed := by
  rw [Platform.float]
  cases platform.number p with
  | none => exact .null
  | some => exact .number

theorem within_elim {α : Type} {allowed : Allowed} {o : Option α} {f : α → Value} (held : ∀ a ∈ o, (f a).Within allowed) :
    (o.elim .null f).Within allowed := by
  cases o with
  | none => exact .null
  | some a => exact held a rfl

@[simp] theorem within_strings {texts : List String} :
    (strings texts).Within (recordAllowed platform signed added) ↔ ∀ s ∈ texts, Clean platform signed added s := by
  simp [strings]

@[simp] theorem within_span {span : Span} : span.value.Within (recordAllowed platform signed added) := by
  simp [Span.value, KEYS]

@[simp] theorem within_spanOption {span : Option Span} :
    (span.elim .null Span.value).Within (recordAllowed platform signed added) := within_elim fun _ _ => within_span

theorem clean_question (question : Question) : Clean platform signed added question.as_str :=
  .word (by cases question <;> simp [Question.as_str, WORDS])

theorem clean_label (label : Label) : Clean platform signed added label.as_str :=
  .word (by cases label <;> simp [Label.as_str, WORDS])

structure Answer.Recorded (platform : Platform F) (signed : Signed) (added : Added) (a : Answer F) : Prop where
  basis : Clean platform signed added a.basis
  reason : Phrased platform signed added a.reason
  detail : a.detail.Within (recordAllowed platform signed added)

theorem Answer.Recorded.value {a : Answer F} (recorded : a.Recorded platform signed added) :
    (a.value platform).Within (recordAllowed platform signed added) := by
  have probability : (a.probability.elim .null platform.float).Within (recordAllowed platform signed added) :=
    within_elim fun _ _ => within_float
  have held := recorded.detail
  rw [Answer.value, Value.within_object_append]
  refine ⟨?_, ?_⟩
  · simp [KEYS, probability, recorded.basis, Clean.phrased recorded.reason, clean_question, clean_label]
  · split
    · simp
    · simp [KEYS, held]

section

variable {case_ : Case}

theorem judge_claim_recorded (named : Clean platform signed added case_.id) (text : List Char) (offset : Nat) :
    Clean platform signed added (Fidelity.judge_claim platform case_ text offset).1.as_str ∧
      (Fidelity.judge_claim platform case_ text offset).2.1.Within (recordAllowed platform signed added) ∧
      (Fidelity.judge_claim platform case_ text offset).2.2.Within (recordAllowed platform signed added) := by
  have word : ∀ verdict : Fidelity.Verdict, Clean platform signed added verdict.as_str := fun verdict =>
    .word (by cases verdict <;> simp [Fidelity.Verdict.as_str, WORDS])
  have window : Clean platform signed added "window" := .word (by simp [WORDS])
  refine ⟨word _, ?_⟩
  rw [Fidelity.judge_claim]
  dsimp only
  split
  · split
    · simp [KEYS, window, named, Clean.digest]
    · exact ⟨.null, .null⟩
  · exact ⟨.null, .null⟩

theorem six_word_run_recorded (named : Clean platform signed added case_.id) :
    (six_word_run platform case_).Recorded platform signed added where
  basis := by
    rw [six_word_run_basis]
    exact .word (by simp [six_word_name, WORDS])
  reason := by
    rw [six_word_run]
    dsimp only
    split_ifs
    · exact .phrase (by simp [PHRASES])
    · exact .phrase (by simp [PHRASES])
    · exact .phrase (by simp [PHRASES])
  detail := by
    have claims : ∀ claim ∈ (Fidelity.invoke platform case_).zipIdx,
        (claim_ref case_.summary claim).Within (recordAllowed platform signed added) := by
      intro (claim, index) listed
      obtain ⟨span, _, rfl⟩ := List.mem_map.mp (List.fst_mem_of_mem_zipIdx listed)
      obtain ⟨verdict, basis, evidence⟩ := judge_claim_recorded named (Fidelity.claimText case_.summary span) span.1
      simp [claim_ref, KEYS, verdict, basis, evidence]
    simp only [six_word_run, Value.within_object_cons, Value.within_array, List.forall_mem_map]
    simpa [KEYS, Clean.digest] using claims

theorem whole_recorded : (whole platform case_).Recorded platform signed added where
  basis := .word (by simp [whole, WHOLE_NAME, WORDS])
  reason := by
    rw [whole]
    dsimp only
    split_ifs
    · exact .phrase (by simp [PHRASES])
    · exact .phrase (by simp [PHRASES])
  detail := .null

theorem keep_intact_recorded (labels : ∀ marker ∈ case_.markers, Phrased platform signed added marker.label) :
    (KeepIntact.check platform case_).1.Recorded platform signed added := by
  have phrase : ∀ s ∈ PHRASES, Phrased platform signed added s := fun _ => .phrase
  rw [KeepIntact.check]
  split
  · exact ⟨.word (by simp [KeepIntact.NAME, WORDS]), phrase _ (by simp [PHRASES]), .null⟩
  · refine ⟨.word (by simp [KeepIntact.NAME, WORDS]), ?_, ?_⟩
    · dsimp only
      split
      · rename_i index cut
        refine .append (.append (.append (.append (phrase _ ?_) (.count index)) (phrase _ ?_)) ?_) (phrase _ ?_)
        · simp [PHRASES]
        · simp [PHRASES]
        · cases marked : case_.markers[index]? with
          | none => exact .phrase (by simp [PHRASES])
          | some marker => exact labels marker (List.mem_of_getElem? marked)
        · simp [PHRASES]
      · exact phrase _ (by simp [PHRASES])
    · have findings : ∀ marker ∈ case_.markers, ∀ index,
          (KeepIntact.finding platform.toLetters case_ index marker).Within (recordAllowed platform signed added) := by
        intro marker listed index
        have outcome : Clean platform signed added (KeepIntact.outcome platform.toLetters case_ marker).as_str :=
          .word (by cases KeepIntact.outcome platform.toLetters case_ marker <;> simp [KeepIntact.Outcome.as_str, WORDS])
        rw [KeepIntact.finding]
        dsimp only
        split
        · simp [KEYS, outcome, Clean.phrased (labels marker listed)]
        · split_ifs <;> simp [KEYS, outcome, Clean.phrased (labels marker listed)]
      simp only [Value.within_object_cons, Value.within_array, List.forall_mem_map]
      refine ⟨⟨by simp [KEYS], trivial, fun marked listed => ?_⟩, Value.within_object_nil⟩
      exact findings marked.1 (List.fst_mem_of_mem_zipIdx listed) marked.2

section

open Attribution

theorem quote_ref_recorded (quote : Quotation) :
    (quote_ref platform quote).Within (recordAllowed platform signed added) := by
  simp [quote_ref, KEYS, Clean.digest]

theorem named_value_recorded (speaker : Option Speaker) :
    (named_value platform speaker).Within (recordAllowed platform signed added) := by
  unfold named_value
  split
  · simp [KEYS, Clean.digest]
  · exact .string (.word (by simp [WORDS]))
  · exact .null

theorem examine_recorded (quote : Quotation) :
    (examine platform case_ quote).1.Within (recordAllowed platform signed added) := by
  have how : ∀ s ∈ ["passage attribution", "pronoun in the passage", "name near the quotation"],
      Clean platform signed added s := by
    intro s listed
    refine .word ?_
    simp only [List.mem_cons, List.not_mem_nil, or_false] at listed
    rcases listed with rfl | rfl | rfl <;> simp [WORDS]
  have why : ∀ unsure : Prop, [Decidable unsure] →
      Clean platform signed added (if unsure then "the sentence attributes the quotation by pronoun"
        else "the sentence quotes without naming a speaker") := by
    intro unsure _
    split_ifs <;> exact .phrased (.phrase (by simp [PHRASES]))
  unfold examine
  dsimp only
  split
  · simp [KEYS, quote_ref_recorded]
  · split
    · split <;> simp [KEYS, quote_ref_recorded, named_value_recorded, how, Clean.digest]
    · simp [KEYS, quote_ref_recorded, why]

theorem verdict_recorded {held : Option (Label × String)} (before : ∀ found ∈ held, Phrased platform signed added found.2)
    (e : Examined) : ∀ found ∈ verdict held e, Phrased platform signed added found.2 := by
  have phrase : ∀ label : Label, ∀ s ∈ PHRASES, ∀ found ∈ some (label, s), Phrased platform signed added found.2 := by
    rintro label s listed _ ⟨⟩
    exact .phrase listed
  cases e with
  | missing =>
    cases held with
    | none => exact phrase _ _ (by simp [PHRASES])
    | some => exact before
  | unnamed | unresolved => exact before
  | attributed named =>
    rw [verdict]
    split_ifs
    · exact before
    · exact phrase _ _ (by simp [PHRASES])
    · exact phrase _ _ (by simp [PHRASES])

theorem verdicts_recorded {held : Option (Label × String)} (before : ∀ found ∈ held, Phrased platform signed added found.2)
    (examined : List Examined) : ∀ found ∈ examined.foldl verdict held, Phrased platform signed added found.2 := by
  induction examined generalizing held with
  | nil => exact before
  | cons e examined ih => exact ih (verdict_recorded before e)

theorem attribution_recorded : (Attribution.check platform case_).Recorded platform signed added where
  basis := .word (by simp [Attribution.check, Attribution.NAME, WORDS])
  reason := by
    have reached := @verdicts_recorded F platform signed added none (fun _ held => nomatch held)
      (((quotations platform.toLetters case_.summary).map (examine platform case_)).map Prod.snd)
    unfold Attribution.check
    dsimp only
    split
    · rename_i label reason is
      exact reached _ is
    · split_ifs <;> exact .phrase (by simp [PHRASES])
  detail := by
    simp only [Attribution.check, Value.within_object_cons, Value.within_array, List.forall_mem_map]
    exact ⟨⟨by simp [KEYS], trivial, fun quote _ => examine_recorded quote⟩, Value.within_object_nil⟩

end

end

end

end CommonMeasure.Integrity
