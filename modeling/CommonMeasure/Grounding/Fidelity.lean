import CommonMeasure.Grounding.Runs

namespace CommonMeasure.Grounding

open Integrity (Letters Span spanOf decimalText)
open Integrity.Fidelity (same_word longest_shared_run segment claimText MINIMUM_WINDOW_RUN_WORDS)

abbrev ClaimVerdict := Integrity.Fidelity.Verdict

inductive Basis where
  | citation | window
  deriving DecidableEq

structure Evidence where
  reference : List Char
  content_hash : List Char
  start : Nat
  stop : Nat
  claim_start : Nat
  claim_end : Nat
  words : Nat

structure Judgement where
  verdict : ClaimVerdict
  basis : Option Basis
  citation : Option Nat
  evidence : Option Evidence
  reason : List Char

structure ClaimRecord where
  index : Nat
  start : Nat
  stop : Nat
  text : List Char
  words : Nat
  judgement : Judgement

section

variable (letters : Letters) (citations : List Citation) (parts : List ContextPart)

def quoting (text : List Char) (verdict : Verdict) : Option (Nat × Citation × List Char × Span) :=
  (citations.zipIdx.filter fun (citation, _) => citation.verdict = verdict).findSome? fun (citation, index) =>
    citation.quote.bind fun quote => (find_quote letters quote text).map fun span => (index, citation, quote, span)

def best_run (claim : List Word) : Option (ContextPart × Nat × Nat × Nat) :=
  parts.foldl (fun best part =>
    match longest_shared_run letters claim (words part.text) with
    | some (claim_at, part_at, length) =>
      if best.all fun (_, _, _, held) => held < length then some (part, claim_at, part_at, length) else best
    | none => best) none

def numbered (index : Nat) : List Char := '#' :: (decimalText (index + 1)).toList

def unsupported : Judgement where
  verdict := .unsupported
  basis := none
  citation := none
  evidence := none
  reason := "no supported citation's quote and no run of ".toList ++ (decimalText MINIMUM_WINDOW_RUN_WORDS).toList ++
    (" or more consecutive words of the claim occurs in the window's retained text; a paraphrase of the window is " ++
      "invisible to this check").toList

def judge_claim (text : List Char) (offset : Nat) : Judgement :=
  match quoting letters citations text .contradicted with
  | some (index, citation, quote, _) =>
    ⟨.contradicted, some .citation, some index, none, "the claim contains \"".toList ++ quote ++
      "\", which citation ".toList ++ numbered index ++ " attributes to ".toList ++ citation.url.getD [] ++
      " and the grounding evaluator found absent from that source's retained text".toList⟩
  | none =>
    match quoting letters citations text .supported with
    | some (index, citation, quote, span) =>
      let evidence : Evidence := ⟨citation.url.getD [], (citation.matched.map Matched.content_hash).getD [],
        (citation.matched.map fun matched => matched.span.start).getD 0,
        (citation.matched.map fun matched => matched.span.stop).getD 0, offset + span.start, offset + span.stop,
        (words quote).length⟩
      ⟨.supported, some .citation, some index, some evidence, "the claim contains the quote of citation ".toList ++
        numbered index ++ ", which the grounding evaluator found in the retained text of ".toList ++ evidence.reference ++
        " at the recorded span".toList⟩
    | none =>
      let claim := words text
      match best_run letters parts claim with
      | some (part, claim_at, part_at, length) =>
        if MINIMUM_WINDOW_RUN_WORDS ≤ length then
          let found := spanOf (words part.text) part_at (part_at + length)
          let span := spanOf claim claim_at (claim_at + length)
          ⟨.supported, some .window, none, some ⟨part.source_ref, part.content_hash, found.start, found.stop,
            offset + span.start, offset + span.stop, length⟩, (decimalText length).toList ++
            " consecutive words of the claim occur in the retained text of ".toList ++ part.source_ref ++
            " at the recorded span".toList⟩
        else unsupported
      | none => unsupported

def invoke (answer : List Char) : List ClaimRecord :=
  (segment answer).zipIdx.map fun (span, index) =>
    let text := claimText answer span
    ⟨index, span.1, span.2, text, (words text).length, judge_claim letters citations parts text span.1⟩

/-! ### Judging -/

def Contains (text : List Char) (verdict : Verdict) : Prop :=
  ∃ citation ∈ citations, citation.verdict = verdict ∧ ∃ quote, citation.quote = some quote ∧ Occurs letters quote text

end

section

variable {letters : Letters} {citations : List Citation} {parts : List ContextPart} {text : List Char}

theorem quoting_isSome {verdict : Verdict} :
    (quoting letters citations text verdict).isSome = true ↔ Contains letters citations text verdict := by
  rw [quoting, List.isSome_findSome?]
  simp only [List.any_eq_true, List.mem_filter, decide_eq_true_eq]
  constructor
  · rintro ⟨⟨citation, index⟩, ⟨listed, is⟩, found⟩
    cases quoted : citation.quote with
    | none => simp [quoted] at found
    | some quote =>
      have has : (find_quote letters quote text).isSome = true := by simpa [quoted] using found
      exact ⟨citation, List.fst_mem_of_mem_zipIdx listed, is, quote, quoted, find_quote_isSome.mp has⟩
  · rintro ⟨citation, listed, is, quote, quoted, occurs⟩
    obtain ⟨index, here⟩ := List.getElem?_of_mem listed
    refine ⟨(citation, index), ⟨List.mem_zipIdx_iff_getElem?.mpr here, is⟩, ?_⟩
    simpa [quoted] using find_quote_isSome.mpr occurs

theorem best_run_best (claim : List Word) :
    (best_run letters parts claim = none → ∀ part ∈ parts, longest_shared_run letters claim (words part.text) = none) ∧
    ∀ part claim_at part_at length, best_run letters parts claim = some (part, claim_at, part_at, length) → part ∈ parts ∧
      longest_shared_run letters claim (words part.text) = some (claim_at, part_at, length) ∧
      ∀ other ∈ parts, ∀ found, longest_shared_run letters claim (words other.text) = some found → found.2.2 ≤ length := by
  induction parts using List.reverseRecOn with
  | nil => exact ⟨fun _ part listed => by simp at listed, fun part claim_at part_at length none_ => by simp [best_run] at none_⟩
  | append_singleton earlier last ih =>
    obtain ⟨none_, some_⟩ := ih
    have step : best_run letters (earlier ++ [last]) claim = match longest_shared_run letters claim (words last.text) with
        | some (claim_at, part_at, length) =>
          if (best_run letters earlier claim).all fun (_, _, _, held) => held < length then
            some (last, claim_at, part_at, length)
          else best_run letters earlier claim
        | none => best_run letters earlier claim := by
      rw [best_run, List.foldl_append]
      rfl
    cases longest : longest_shared_run letters claim (words last.text) with
    | none =>
      simp only [longest] at step
      rw [step]
      refine ⟨fun is part listed => ?_, fun part claim_at part_at length is => ?_⟩
      · rcases List.mem_append.mp listed with listed | listed
        · exact none_ is part listed
        · rwa [List.mem_singleton.mp listed]
      · obtain ⟨listed, found, most⟩ := some_ part claim_at part_at length is
        refine ⟨List.mem_append_left _ listed, found, fun other member run same => ?_⟩
        rcases List.mem_append.mp member with member | member
        · exact most other member run same
        · rw [List.mem_singleton.mp member, longest] at same
          cases same
    | some run =>
      obtain ⟨at_claim, at_part, count⟩ := run
      simp only [longest] at step
      by_cases beats : ((best_run letters earlier claim).all fun (_, _, _, held) => held < count) = true
      · rw [if_pos beats] at step
        rw [step]
        refine ⟨fun is => (Option.some_ne_none _ is).elim, fun part claim_at part_at length is => ?_⟩
        obtain ⟨rfl, run⟩ := Prod.mk.inj (Option.some.inj is)
        obtain ⟨rfl, places⟩ := Prod.mk.inj run
        obtain ⟨rfl, rfl⟩ := Prod.mk.inj places
        refine ⟨List.mem_append_right _ List.mem_cons_self, longest, fun other member run same => ?_⟩
        rcases List.mem_append.mp member with member | member
        · cases held : best_run letters earlier claim with
          | none => cases (none_ held other member).symm.trans same
          | some best =>
            obtain ⟨part, claim_at, part_at, length⟩ := best
            have less : length < count := by simpa [held] using beats
            have most := (some_ part claim_at part_at length held).2.2 other member run same
            omega
        · rw [List.mem_singleton.mp member, longest] at same
          rw [← Option.some.inj same]
      · rw [if_neg beats] at step
        rw [step]
        refine ⟨fun is => (beats (is ▸ rfl)).elim, fun part claim_at part_at length is => ?_⟩
        obtain ⟨listed, found, most⟩ := some_ part claim_at part_at length is
        refine ⟨List.mem_append_left _ listed, found, fun other member run same => ?_⟩
        rcases List.mem_append.mp member with member | member
        · exact most other member run same
        · rw [List.mem_singleton.mp member, longest] at same
          rw [← Option.some.inj same]
          simpa [is] using beats

structure JudgedClaim (letters : Letters) (citations : List Citation) (parts : List ContextPart) (answer text : List Char)
    (span : Nat × Nat) (judgement : Judgement) : Prop where
  contradicted : judgement.verdict = .contradicted ↔ Contains letters citations text .contradicted
  cited : ¬Contains letters citations text .contradicted →
    (judgement.verdict = .supported ∧ judgement.basis = some .citation ↔ Contains letters citations text .supported)
  shared : ¬Contains letters citations text .contradicted → ¬Contains letters citations text .supported →
    (judgement.verdict = .supported ∧ judgement.basis = some .window ↔ ∃ part ∈ parts, ∃ count,
      MINIMUM_WINDOW_RUN_WORDS ≤ count ∧ Shares letters (words text) (words part.text) count)
  evidence : judgement.basis = some .window → ∃ part ∈ parts, ∃ evidence claimed found,
    judgement.evidence = some evidence ∧ evidence.reference = part.source_ref ∧ evidence.content_hash = part.content_hash ∧
    Lies answer evidence.claim_start evidence.claim_end claimed ∧ span.1 ≤ evidence.claim_start ∧
    evidence.claim_end ≤ span.2 ∧ Lies part.text evidence.start evidence.stop found ∧
    List.Forall₂ (fun word other => same_word letters word.text other.text = true) (words claimed) (words found) ∧
    (words claimed).length = evidence.words ∧
    ∀ other ∈ parts, ∀ count, Shares letters (words text) (words other.text) count → count ≤ evidence.words

theorem judge_claim_judged {answer : List Char} {span : Nat × Nat} (lies : Lies answer span.1 span.2 text) :
    JudgedClaim letters citations parts answer text span (judge_claim letters citations parts text span.1) := by
  have contradicted := @quoting_isSome letters citations text .contradicted
  have supported := @quoting_isSome letters citations text .supported
  rw [judge_claim]
  cases one : quoting letters citations text .contradicted with
  | some found =>
    have has : Contains letters citations text .contradicted := contradicted.mp (one ▸ rfl)
    exact ⟨⟨fun _ => has, fun _ => rfl⟩, fun not_ => (not_ has).elim, fun not_ => (not_ has).elim, fun is => (by cases is)⟩
  | none =>
    dsimp only
    have not_ : ¬Contains letters citations text .contradicted := fun has => by simpa [one] using contradicted.mpr has
    cases two : quoting letters citations text .supported with
    | some found =>
      have has : Contains letters citations text .supported := supported.mp (two ▸ rfl)
      refine ⟨⟨fun is => (by cases is), fun has => (not_ has).elim⟩, fun _ => ⟨fun _ => has, fun _ => ⟨rfl, rfl⟩⟩,
        fun _ nor => (nor has).elim, fun is => (by cases is)⟩
    | none =>
      dsimp only
      have nor : ¬Contains letters citations text .supported := fun has => by simpa [two] using supported.mpr has
      have best := @best_run_best letters parts (words text)
      have unheld (short : ∀ part ∈ parts, ∀ count, Shares letters (words text) (words part.text) count →
          count < MINIMUM_WINDOW_RUN_WORDS) : JudgedClaim letters citations parts answer text span unsupported := by
        refine ⟨⟨fun is => (by cases is), fun has => (not_ has).elim⟩,
          fun _ => ⟨fun is => (by cases is.1), fun has => (nor has).elim⟩, fun _ _ => ⟨fun is => (by cases is.1), ?_⟩,
          fun is => (by cases is)⟩
        rintro ⟨part, listed, count, long, shares⟩
        have := short part listed count shares
        omega
      cases three : best_run letters parts (words text) with
      | none =>
        apply unheld
        intro part listed count shares
        rw [longest_none (best.1 three part listed) shares]
        decide
      | some held =>
        obtain ⟨part, claim_at, part_at, length⟩ := held
        obtain ⟨listed, longest, most⟩ := best.2 part claim_at part_at length three
        have all (other : ContextPart) (member : other ∈ parts) (count : Nat)
            (shares : Shares letters (words text) (words other.text) count) : count ≤ length := by
          cases run : longest_shared_run letters (words text) (words other.text) with
          | none => exact longest_none run shares ▸ Nat.zero_le _
          | some found => exact ((longest_some run).2 count shares).trans (most other member found run)
        dsimp only
        by_cases long : MINIMUM_WINDOW_RUN_WORDS ≤ length
        · rw [if_pos long]
          obtain ⟨⟨positive, before, run, after, front, other, back, whole, split, alike, rfl, rfl, rfl⟩, _⟩ :=
            longest_some longest
          have run_some : run ≠ [] := List.ne_nil_of_length_pos positive
          have other_some : other ≠ [] := List.ne_nil_of_length_pos (alike.length_eq ▸ positive)
          obtain ⟨claimed, claim_lies, claim_texts⟩ := stretch_lies whole run_some
          obtain ⟨found, part_lies, part_texts⟩ := stretch_lies split other_some
          have claim_span : spanOf (words text) before.length (before.length + run.length) = stretch run := by
            rw [whole]
            exact spanOf_stretch before after run_some
          have part_span : spanOf (words part.text) front.length (front.length + run.length) = stretch other := by
            rw [alike.length_eq, split]
            exact spanOf_stretch front back other_some
          have one_side := forall₂_texts (R := fun word other => same_word letters word other = true) alike claim_texts
          have both := forall₂_texts (R := fun other word => same_word letters word other = true) one_side.flip part_texts
          have count := congrArg List.length claim_texts
          rw [List.length_map, List.length_map] at count
          have ends : span.1 + (stretch run).stop ≤ span.2 := by
            obtain ⟨_, _, _, _, whole_ends⟩ := lies
            obtain ⟨lead, tail, parts_, _, claim_ends⟩ := claim_lies
            have length := congrArg byteLen parts_
            simp only [byteLen_append] at length
            omega
          have shares : ∃ part ∈ parts, ∃ count, MINIMUM_WINDOW_RUN_WORDS ≤ count ∧
              Shares letters (words text) (words part.text) count :=
            ⟨part, listed, run.length, long, before, run, after, front, other, back, whole, split, alike, rfl⟩
          refine ⟨⟨fun is => (by cases is), fun has => (not_ has).elim⟩,
            fun _ => ⟨fun is => (by cases is.2), fun has => (nor has).elim⟩,
            fun _ _ => ⟨fun _ => shares, fun _ => ⟨rfl, rfl⟩⟩, fun _ => ?_⟩
          refine ⟨part, listed, _, claimed, found, rfl, rfl, rfl, ?_, Nat.le_add_right _ _, ?_, ?_, both.flip, count, all⟩
          · dsimp only
            rw [claim_span]
            exact lies.inside claim_lies
          · dsimp only
            rw [claim_span]
            exact ends
          · dsimp only
            rw [part_span]
            exact part_lies
        · rw [if_neg long]
          apply unheld
          intro other member count shares
          have := all other member count shares
          omega

end

/-- The claims of every answer, and what the verdict on each says of the citations and of the parts. -/
theorem invoke_judges (letters : Letters) (answer : List Char) (citations : List Citation) (parts : List ContextPart) :
    Claimed answer ((invoke letters citations parts answer).map fun claim => (claim.start, claim.stop)) ∧
    ∀ claim ∈ invoke letters citations parts answer, Lies answer claim.start claim.stop claim.text ∧
      JudgedClaim letters citations parts answer claim.text (claim.start, claim.stop) claim.judgement := by
  have claimed := segment_claimed answer
  constructor
  · have spans : (invoke letters citations parts answer).map (fun claim => (claim.start, claim.stop)) = segment answer := by
      rw [invoke, List.map_map]
      exact List.zipIdx_map_fst 0 _
    rwa [spans]
  · intro claim listed
    obtain ⟨⟨span, index⟩, member, rfl⟩ := List.mem_map.mp listed
    obtain ⟨_, text, lies⟩ := claimed.lies span (List.fst_mem_of_mem_zipIdx member)
    have is : claimText answer span = text := by
      rw [claimText, slice_iff.mpr lies]
      rfl
    dsimp only
    rw [is]
    exact ⟨lies, judge_claim_judged lies⟩

end CommonMeasure.Grounding
