import CommonMeasure.Grounding.Copied

/-!
# Sentences

A line is cut after each terminator, with what closes it, that white space or the end follows, and nowhere else.
-/

namespace CommonMeasure.Grounding

open Integrity (Span isTerminator sentencesFrom)
open Integrity.Fidelity (closing closingQuotes isAsciiWhitespace sentences names_a_citation stripped decoration_length
  linesInclusive claimsFrom segment MINIMUM_CLAIM_WORDS)

/-! ### Where a sentence ends -/

section

variable (close : List Char → Nat) (white : Char → Bool)

def Ends (before rest : List Char) : Prop :=
  ∃ front t closers, before = front ++ t :: closers ∧ isTerminator t = true ∧ close (closers ++ rest) = closers.length ∧
    rest.head?.all white = true

structure Split (text : List Char) (pieces : List (List Char)) : Prop where
  whole : pieces.flatten = text
  some : ∀ piece ∈ pieces, piece ≠ []
  cuts : ∀ front back, text = front ++ back → front ≠ [] → back ≠ [] →
    (Ends close white front back ↔ ∃ count, (pieces.take count).flatten = front)

def spansFrom : Nat → List (List Char) → List (Nat × Nat)
  | _, [] => []
  | start, piece :: pieces => (start, start + byteLen piece) :: spansFrom (start + byteLen piece) pieces

variable {close white} {before rest held text : List Char}

theorem Ends.push (ends : Ends close white before rest) (front : List Char) : Ends close white (front ++ before) rest := by
  obtain ⟨inner, t, closers, rfl, more⟩ := ends
  exact ⟨front ++ inner, t, closers, by simp, more⟩

def Closes (close : List Char → Nat) : Prop :=
  ∀ rest : List Char, close rest ≤ rest.length ∧ ∀ c ∈ rest.take (close rest), isTerminator c = false

theorem last_terminator {front other behind also : List Char} {t u : Char} (same : front ++ t :: behind = other ++ u :: also)
    (ends : isTerminator t = true) (also_ends : isTerminator u = true) (plain : ∀ c ∈ behind, isTerminator c = false)
    (also_plain : ∀ c ∈ also, isTerminator c = false) : front = other ∧ t = u ∧ behind = also := by
  have tail (front behind : List Char) (t : Char) (ends : isTerminator t = true)
      (plain : ∀ c ∈ behind, isTerminator c = false) :
      (front ++ t :: behind).rtakeWhile (fun c => !isTerminator c) = behind := by
    have each : ∀ c ∈ behind.reverse, (!isTerminator c) = true := fun c listed => by simp [plain c (List.mem_reverse.mp listed)]
    rw [List.rtakeWhile, List.reverse_append, List.reverse_cons, List.append_assoc, List.takeWhile_append_of_pos each,
      List.singleton_append, List.takeWhile_cons_of_neg (by simp [ends]), List.append_nil, List.reverse_reverse]
  have behinds : behind = also := by
    rw [← tail front behind t ends plain, same, tail other also u also_ends also_plain]
  subst behinds
  have fronts := List.append_inj' same rfl
  exact ⟨fronts.1, (List.cons.inj fronts.2).1, rfl⟩

theorem taken (closers rest : List Char) (is : close (closers ++ rest) = closers.length) :
    (closers ++ rest).take (close (closers ++ rest)) = closers := by
  rw [is, List.take_left]

theorem Ends.beyond (closes : Closes close) {front back : List Char} (some_ : front ≠ [])
    (one : Ends close white before (front ++ back)) (other : Ends close white (before ++ front) back) :
    Ends close white front back := by
  obtain ⟨inner, t, closers, whole, ends, length, white_⟩ := other
  rcases List.append_eq_append_iff.mp whole with ⟨more, rfl, same⟩ | ⟨more, rfl, same⟩
  · exact ⟨more, t, closers, same, ends, length, white_⟩
  · obtain ⟨first, u, also, split, also_ends, also_length, _⟩ := one
    cases more with
    | nil => exact ⟨[], t, closers, by simpa using same.symm, ends, length, white_⟩
    | cons d more =>
      -- The terminator is the one that ended before, so what closes it is no longer than before.
      obtain ⟨rfl, rfl⟩ := List.cons.inj same
      change close (more ++ front ++ back) = (more ++ front).length at length
      have plain := (closes (more ++ front ++ back)).2
      rw [taken _ _ length] at plain
      have also_plain := (closes (also ++ (front ++ back))).2
      rw [taken _ _ also_length] at also_plain
      obtain ⟨rfl, rfl, rfl⟩ := last_terminator split ends also_ends
        (fun c listed => plain c (List.mem_append_left _ listed)) also_plain
      rw [List.append_assoc] at length
      rw [length, List.length_append] at also_length
      exact absurd (List.eq_nil_of_length_eq_zero (by omega)) some_

theorem sentencesFrom_skip (start index skip : Nat) (rest : List Char) : sentencesFrom close white start index skip rest =
    sentencesFrom close white start (index + byteLen (rest.take skip)) 0 (rest.drop skip) := by
  induction rest generalizing index skip with
  | nil => simp [sentencesFrom]
  | cons c rest ih =>
    cases skip with
    | zero => simp
    | succ skip =>
      rw [sentencesFrom, ih, List.take_succ_cons, List.drop_succ_cons, byteLen_cons, Nat.add_assoc]

def Unended (close : List Char → Nat) (white : Char → Bool) (held rest : List Char) : Prop :=
  ∀ front t behind, held = front ++ t :: behind → isTerminator t = true →
    ((behind ++ rest).drop (close (behind ++ rest))).head?.all white = false

theorem Unended.not_ends (unended : Unended close white held rest) {front back : List Char}
    (whole : held = front ++ back) : ¬Ends close white front (back ++ rest) := by
  rintro ⟨inner, t, closers, rfl, ends, length, white_⟩
  have not_ := unended inner t (closers ++ back) (by rw [whole]; simp) ends
  rw [List.append_assoc, length, List.drop_left, white_] at not_
  cases not_

theorem cut_last (unended : Unended close white held []) : ∃ pieces, Split close white held pieces ∧
    ∀ start, (if start < start + byteLen held then [(start, start + byteLen held)] else []) = spansFrom start pieces := by
  by_cases none_ : held = []
  · subst none_
    refine ⟨[], ⟨rfl, by simp, fun front back whole some_ _ => ?_⟩, fun start => by simp [spansFrom]⟩
    exact (some_ (List.append_eq_nil_iff.mp whole.symm).1).elim
  · refine ⟨[held], ⟨List.flatten_singleton, fun piece listed => List.mem_singleton.mp listed ▸ none_, ?_⟩, fun start => ?_⟩
    · intro front back whole some_ more
      have not_ := unended.not_ends whole
      rw [List.append_nil] at not_
      refine ⟨fun ends => (not_ ends).elim, ?_⟩
      rintro ⟨count, taken⟩
      cases count with
      | zero => exact (some_ taken.symm).elim
      | succ count =>
        have all : held = front := by simpa using taken
        rw [← all] at whole
        exact (more (List.self_eq_append_right.mp whole)).elim
    · have size := byteLen_pos none_
      rw [if_pos (by omega)]
      rfl

theorem cut_first (closes : Closes close) {piece : List Char} {pieces : List (List Char)}
    (split : Split close white rest pieces)
    (some_ : piece ≠ []) (ends : rest ≠ [] → Ends close white piece rest)
    (first : ∀ front back, piece = front ++ back → front ≠ [] → back ≠ [] → ¬Ends close white front (back ++ rest)) :
    Split close white (piece ++ rest) (piece :: pieces) := by
  refine ⟨by rw [List.flatten_cons, split.whole], ?_, ?_⟩
  · intro other listed
    rcases List.mem_cons.mp listed with rfl | later
    · exact some_
    · exact split.some other later
  · intro front back whole front_some back_some
    constructor
    · intro ends_
      rcases List.append_eq_append_iff.mp whole with ⟨more, rfl, after⟩ | ⟨more, rfl, after⟩
      · cases more with
        | nil => exact ⟨1, by simp⟩
        | cons c more =>
          have rest_some : rest ≠ [] := by simp [after]
          have inner := (ends rest_some)
          rw [after] at inner
          obtain ⟨count, is⟩ := (split.cuts _ back after (List.cons_ne_nil _ _) back_some).mp
            (inner.beyond closes (List.cons_ne_nil _ _) ends_)
          exact ⟨count + 1, by rw [List.take_succ_cons, List.flatten_cons, is]⟩
      · cases more with
        | nil => exact ⟨1, by simp⟩
        | cons c more =>
          rw [after] at ends_
          exact (first front _ rfl front_some (List.cons_ne_nil _ _) ends_).elim
    · rintro ⟨count, is⟩
      cases count with
      | zero => exact (front_some is.symm).elim
      | succ count =>
        rw [List.take_succ_cons, List.flatten_cons] at is
        subst is
        rw [List.append_assoc] at whole
        have after := List.append_cancel_left whole
        by_cases none_ : (pieces.take count).flatten = []
        · rw [none_, List.append_nil]
          rw [none_, List.nil_append] at after
          exact after ▸ ends (after ▸ back_some)
        · exact ((split.cuts _ back after none_ back_some).mpr ⟨count, rfl⟩).push piece

theorem sentencesFrom_split (closes : Closes close) (size start : Nat) (held rest : List Char) (small : rest.length < size)
    (unended : Unended close white held rest) :
    ∃ pieces, Split close white (held ++ rest) pieces ∧
      sentencesFrom close white start (start + byteLen held) 0 rest = spansFrom start pieces := by
  induction size generalizing start held rest with
  | zero => exact absurd small (Nat.not_lt_zero _)
  | succ size ih =>
    cases rest with
    | nil =>
      obtain ⟨pieces, split, spans⟩ := cut_last unended
      exact ⟨pieces, by rwa [List.append_nil], spans start⟩
    | cons c rest =>
      rw [List.length_cons] at small
      rw [sentencesFrom]
      split
      · rename_i ends
        rw [Bool.and_eq_true] at ends
        obtain ⟨pieces, split, spans⟩ := ih (start + byteLen (held ++ c :: rest.take (close rest))) []
          (rest.drop (close rest)) (by rw [List.length_drop]; omega) (fun front t behind none_ => by simp at none_)
        rw [List.nil_append] at split
        have length : close (rest.take (close rest) ++ rest.drop (close rest)) = (rest.take (close rest)).length := by
          rw [List.take_append_drop, List.length_take, Nat.min_eq_left (closes rest).1]
        have here : Ends close white (held ++ c :: rest.take (close rest)) (rest.drop (close rest)) :=
          ⟨held, c, _, rfl, ends.1, length, ends.2⟩
        refine ⟨(held ++ c :: rest.take (close rest)) :: pieces, ?_, ?_⟩
        · have whole : held ++ c :: rest = held ++ c :: rest.take (close rest) ++ rest.drop (close rest) := by simp
          rw [whole]
          refine cut_first closes split (by simp) (fun _ => here) ?_
          intro front back parts front_some back_some ends_
          rw [parts] at here
          obtain ⟨inner, t, closers, rfl, also_ends, also_length, _⟩ := ends_.beyond closes back_some here
          have plain := (closes (closers ++ rest.drop (close rest))).2
          rw [taken _ _ also_length] at plain
          rw [← List.append_assoc] at parts
          obtain ⟨held_is, rfl, rfl⟩ := last_terminator parts ends.1 also_ends (closes rest).2 plain
          refine unended.not_ends held_is ?_
          simpa using ends_
        · dsimp only
          rw [spansFrom, ← spans, sentencesFrom_skip _ _ (close rest) rest]
          simp only [byteLen_append, byteLen_cons, byteLen_nil, Nat.add_assoc, Nat.add_zero]
      · rename_i not_
        have next : Unended close white (held ++ [c]) rest := by
          intro front t behind whole ends
          rcases List.eq_nil_or_concat behind with rfl | ⟨inner, d, rfl⟩
          · obtain ⟨rfl, same⟩ := List.append_inj' whole rfl
            obtain rfl : c = t := (List.cons.inj same).1
            rw [ends, Bool.true_and] at not_
            exact Bool.eq_false_iff.mpr not_
          · rw [List.concat_eq_append, ← List.cons_append, ← List.append_assoc] at whole
            obtain ⟨held_is, same⟩ := List.append_inj' whole rfl
            obtain rfl : c = d := (List.cons.inj same).1
            have earlier := unended front t inner held_is ends
            rwa [List.concat_eq_append, List.append_assoc]
        obtain ⟨pieces, split, spans⟩ := ih start (held ++ [c]) rest (by omega) next
        refine ⟨pieces, by simpa using split, ?_⟩
        rw [← spans, byteLen_append, Nat.add_assoc]
        rfl

end

theorem closingQuotes_le (quotes text : List Char) : closingQuotes quotes text ≤ text.length := by
  induction quotes generalizing text with
  | nil => exact Nat.zero_le _
  | cons quote quotes ih =>
    rw [closingQuotes]
    split
    · rename_i first
      have rest := ih text.tail
      rw [List.length_tail] at rest
      have some_ : text.length ≠ 0 := fun none_ => by simp [List.eq_nil_of_length_eq_zero none_] at first
      omega
    · exact ih text

theorem closingQuotes_mem {quotes text : List Char} {c : Char} (listed : c ∈ text.take (closingQuotes quotes text)) :
    c ∈ quotes := by
  induction quotes generalizing text with
  | nil => simp [closingQuotes] at listed
  | cons quote quotes ih =>
    rw [closingQuotes] at listed
    split at listed
    · rename_i first
      cases text with
      | nil => cases first
      | cons d text =>
        rw [List.tail_cons, List.take_succ_cons] at listed
        rcases List.mem_cons.mp listed with rfl | later
        · exact List.mem_cons.mpr (Or.inl (Option.some.inj first))
        · exact List.mem_cons_of_mem _ (ih later)
    · exact List.mem_cons_of_mem _ (ih listed)

theorem closing_closes : Closes closing := by
  intro rest
  obtain ⟨plain, is⟩ : ∃ plain, rest.takeWhile (fun c => c ∈ ['"', '\'', ')', ']', '}']) = plain := ⟨_, rfl⟩
  obtain ⟨more, whole⟩ : plain <+: rest := is ▸ List.takeWhile_prefix _
  have after : rest.drop plain.length = more := by rw [← whole, List.drop_left]
  have count : closing rest = plain.length + closingQuotes [Char.ofNat 0x201D, Char.ofNat 0x2019, Char.ofNat 0xBB] more := by
    rw [closing, is, after]
  constructor
  · have few := closingQuotes_le [Char.ofNat 0x201D, Char.ofNat 0x2019, Char.ofNat 0xBB] more
    rw [count, ← whole, List.length_append]
    omega
  · intro c listed
    rw [count, ← whole, List.take_length_add_append] at listed
    rcases List.mem_append.mp listed with first | second
    · rw [← is] at first
      have mark : c ∈ ['"', '\'', ')', ']', '}'] := by simpa using List.mem_takeWhile_imp first
      have plain : (['"', '\'', ')', ']', '}'].all fun c => !isTerminator c) = true := by decide
      simpa using List.all_eq_true.mp plain c mark
    · have quotes : ([Char.ofNat 0x201D, Char.ofNat 0x2019, Char.ofNat 0xBB].all fun c => !isTerminator c) = true := by decide
      simpa using List.all_eq_true.mp quotes c (closingQuotes_mem second)

def lineOf (inclusive : List Char) : List Char := inclusive.rdropWhile fun c => c.toNat = 10 || c.toNat = 13

def contentOf (inclusive : List Char) : List Char := stripped^[(lineOf inclusive).length] (lineOf inclusive)

def claimOf (offset : Nat) (piece : List Char) : Option (Nat × Nat) :=
  if (words piece).length < MINIMUM_CLAIM_WORDS then none
  else
    let first := offset + (byteLen piece - byteLen (trimStart piece))
    some (first, first + byteLen (trim piece))

def pieceClaims : Nat → List (List Char) → List (Nat × Nat)
  | _, [] => []
  | offset, piece :: pieces => (claimOf offset piece).toList ++ pieceClaims (offset + byteLen piece) pieces

def lineClaims (start : Nat) (inclusive : List Char) : List (Nat × Nat) :=
  if names_a_citation (lineOf inclusive) then []
  else
    (sentences (contentOf inclusive)).filterMap fun (first, stop) =>
      if (words ((slice (contentOf inclusive) first stop).getD [])).length < MINIMUM_CLAIM_WORDS then none
      else some (start + decoration_length (lineOf inclusive) + first, start + decoration_length (lineOf inclusive) + stop)

theorem lineClaims_unnamed {start : Nat} {inclusive : List Char} {claim : Nat × Nat}
    (listed : claim ∈ lineClaims start inclusive) : names_a_citation (lineOf inclusive) = false := by
  by_contra named
  rw [lineClaims, if_pos (Bool.not_eq_false _ ▸ named)] at listed
  cases listed

theorem claimsFrom_cons (start : Nat) (inclusive : List Char) (rest : List (List Char)) :
    claimsFrom start (inclusive :: rest) = lineClaims start inclusive ++ claimsFrom (start + byteLen inclusive) rest := by
  rw [claimsFrom, lineClaims]
  by_cases named : names_a_citation (lineOf inclusive) = true
  · rw [if_pos named]
    exact if_pos named
  · rw [if_neg named]
    exact if_neg named

theorem claimOf_blank {piece : List Char} (blank : Blank piece) (offset : Nat) : claimOf offset piece = none := by
  have none_ : words piece = [] := wordsAt_blank blank
  rw [claimOf, none_, if_pos (by decide)]

theorem spans_claims (base : Nat) (done : List Char) (pieces : List (List Char)) {text : List Char}
    (whole : text = done ++ pieces.flatten) :
    ((spansFrom (byteLen done) pieces).filterMap fun (start, stop) =>
        let span := Span.trimmed text start stop
        if span.start < span.stop then some (span.start, span.stop) else none).filterMap (fun (first, stop) =>
      if (words ((slice text first stop).getD [])).length < MINIMUM_CLAIM_WORDS then none
      else some (base + first, base + stop)) = pieceClaims (base + byteLen done) pieces := by
  induction pieces generalizing done with
  | nil => rfl
  | cons piece pieces ih =>
    have lies : Lies text (byteLen done) (byteLen done + byteLen piece) piece :=
      ⟨done, pieces.flatten, by rw [whole]; simp, rfl, rfl⟩
    have inner := Span.trimmed_lies lies
    have later := ih (done ++ piece) (by rw [whole]; simp)
    rw [byteLen_append, ← Nat.add_assoc] at later
    rw [spansFrom, pieceClaims, ← later, List.filterMap_cons]
    have span : Span.trimmed text (byteLen done) (byteLen done + byteLen piece) =
        ⟨byteLen done + (byteLen piece - byteLen (trimStart piece)),
          byteLen done + (byteLen piece - byteLen (trimStart piece)) + byteLen (trim piece)⟩ := by
      rw [Span.trimmed, slice_iff.mpr lies]
      rfl
    rw [span] at inner
    simp only [span]
    by_cases blank : trim piece = []
    · rw [claimOf_blank (trim_eq_nil.mp blank), blank, if_neg (by simp)]
      rfl
    · have some_ := byteLen_pos blank
      have count : (words (trim piece)).length = (words piece).length := by
        have texts := congrArg List.length (words_trim piece)
        rwa [List.length_map, List.length_map] at texts
      rw [if_pos (by omega), List.filterMap_cons, slice_iff.mpr inner, Option.getD_some, count, claimOf]
      by_cases short : (words piece).length < MINIMUM_CLAIM_WORDS
      · rw [if_pos short, if_pos short]
        rfl
      · rw [if_neg short, if_neg short]
        simp only [Option.toList_some, List.singleton_append, Nat.add_assoc]

theorem lineClaims_pieces (start : Nat) (inclusive : List Char) (unnamed : names_a_citation (lineOf inclusive) = false) :
    ∃ pieces, Split closing isAsciiWhitespace (contentOf inclusive) pieces ∧
      lineClaims start inclusive = pieceClaims (start + decoration_length (lineOf inclusive)) pieces := by
  obtain ⟨pieces, split, spans⟩ := @sentencesFrom_split closing isAsciiWhitespace closing_closes
    ((contentOf inclusive).length + 1) 0 [] (contentOf inclusive) (Nat.lt_succ_self _)
    (fun front t behind none_ => by simp at none_)
  rw [List.nil_append] at split
  refine ⟨pieces, split, ?_⟩
  have claims := spans_claims (start + decoration_length (lineOf inclusive)) [] pieces split.whole.symm
  rw [byteLen_nil, Nat.add_zero] at claims spans
  rw [← claims, lineClaims, unnamed, if_neg Bool.false_ne_true, sentences, spans]

structure Ranged (low high : Nat) (spans : List (Nat × Nat)) : Prop where
  ordered : spans.Pairwise fun a b => a.2 ≤ b.1
  within : ∀ span ∈ spans, low ≤ span.1 ∧ span.1 < span.2 ∧ span.2 ≤ high

theorem Ranged.append {low middle high : Nat} {one other : List (Nat × Nat)} (first : Ranged low middle one)
    (second : Ranged middle high other) (before : low ≤ middle) (after : middle ≤ high) : Ranged low high (one ++ other) := by
  refine ⟨List.pairwise_append.mpr ⟨first.ordered, second.ordered, ?_⟩, ?_⟩
  · intro a a_listed b b_listed
    have := first.within a a_listed
    have := second.within b b_listed
    omega
  · intro span listed
    rcases List.mem_append.mp listed with listed | listed
    · have := first.within span listed
      omega
    · have := second.within span listed
      omega

theorem Ranged.nil (low high : Nat) : Ranged low high [] := ⟨List.Pairwise.nil, by simp⟩

theorem Ranged.wider {low high least most : Nat} {spans : List (Nat × Nat)} (ranged : Ranged low high spans)
    (below : least ≤ low) (above : high ≤ most) : Ranged least most spans := by
  refine ⟨ranged.ordered, fun span listed => ?_⟩
  have := ranged.within span listed
  omega

theorem claimOf_ranged (offset : Nat) (piece : List Char) :
    Ranged offset (offset + byteLen piece) (claimOf offset piece).toList := by
  rw [claimOf]
  split
  · exact Ranged.nil _ _
  · rename_i long
    obtain ⟨lead, _, opened⟩ := trimStart_parts piece
    obtain ⟨tail, _, closed⟩ := trim_parts piece
    have first := congrArg byteLen opened
    have second := congrArg byteLen closed
    rw [byteLen_append] at first second
    have some_ : 0 < byteLen (trim piece) := by
      apply byteLen_pos
      intro none_
      have blank : words piece = [] := wordsAt_blank (trim_eq_nil.mp none_)
      rw [blank] at long
      exact long (by decide)
    refine ⟨List.pairwise_singleton _ _, fun span listed => ?_⟩
    obtain rfl := List.mem_singleton.mp listed
    dsimp only
    omega

theorem pieceClaims_ranged (offset : Nat) (pieces : List (List Char)) :
    Ranged offset (offset + byteLen pieces.flatten) (pieceClaims offset pieces) := by
  induction pieces generalizing offset with
  | nil => exact Ranged.nil _ _
  | cons piece pieces ih =>
    rw [pieceClaims, List.flatten_cons, byteLen_append, ← Nat.add_assoc]
    exact (claimOf_ranged offset piece).append (ih _) (by omega) (by omega)

theorem mem_pieceClaims {offset : Nat} {pieces : List (List Char)} {claim : Nat × Nat} : claim ∈ pieceClaims offset pieces ↔
    ∃ before piece after, pieces = before ++ piece :: after ∧ claimOf (offset + byteLen before.flatten) piece = some claim := by
  induction pieces generalizing offset with
  | nil => simp [pieceClaims]
  | cons first pieces ih =>
    rw [pieceClaims, List.mem_append, Option.mem_toList, ih]
    constructor
    · rintro (here | ⟨before, piece, after, rfl, later⟩)
      · exact ⟨[], first, pieces, rfl, by simpa using here⟩
      · refine ⟨first :: before, piece, after, rfl, ?_⟩
        rwa [List.flatten_cons, byteLen_append, ← Nat.add_assoc]
    · rintro ⟨before, piece, after, whole, is⟩
      cases before with
      | nil =>
        obtain ⟨rfl, rfl⟩ := List.cons.inj whole
        exact Or.inl (by simpa using is)
      | cons other before =>
        obtain ⟨rfl, rfl⟩ := List.cons.inj whole
        rw [List.flatten_cons, byteLen_append, ← Nat.add_assoc] at is
        exact Or.inr ⟨before, piece, after, rfl, is⟩

theorem contentOf_suffix (inclusive : List Char) : contentOf inclusive <:+ lineOf inclusive := stripped_suffix _ _

theorem decoration_eq (inclusive : List Char) :
    decoration_length (lineOf inclusive) + byteLen (contentOf inclusive) = byteLen (lineOf inclusive) := by
  obtain ⟨decoration, whole⟩ := contentOf_suffix inclusive
  have length := congrArg byteLen whole
  rw [byteLen_append] at length
  show byteLen (lineOf inclusive) - byteLen (contentOf inclusive) + _ = _
  omega

theorem lineClaims_ranged (start : Nat) (inclusive : List Char) :
    Ranged start (start + byteLen (lineOf inclusive)) (lineClaims start inclusive) := by
  by_cases named : names_a_citation (lineOf inclusive) = true
  · rw [lineClaims, if_pos named]
    exact Ranged.nil _ _
  · obtain ⟨pieces, split, is⟩ := lineClaims_pieces start inclusive (Bool.eq_false_iff.mpr named)
    have length := decoration_eq inclusive
    have ranged := pieceClaims_ranged (start + decoration_length (lineOf inclusive)) pieces
    rw [split.whole] at ranged
    rw [is]
    exact ranged.wider (by omega) (by omega)

theorem lineOf_parts (inclusive : List Char) : ∃ returns, inclusive = lineOf inclusive ++ returns :=
  ⟨_, (List.rdropWhile_append_rtakeWhile).symm⟩

theorem claimsFrom_ranged (start : Nat) (lines : List (List Char)) :
    Ranged start (start + byteLen lines.flatten) (claimsFrom start lines) := by
  induction lines generalizing start with
  | nil => exact Ranged.nil _ _
  | cons inclusive rest ih =>
    obtain ⟨returns, whole⟩ := lineOf_parts inclusive
    have length := congrArg byteLen whole
    rw [byteLen_append] at length
    rw [claimsFrom_cons, List.flatten_cons, byteLen_append, ← Nat.add_assoc]
    exact ((lineClaims_ranged start inclusive).wider (Nat.le_refl _) (by omega)).append (ih _) (by omega) (by omega)

theorem mem_claimsFrom {claim : Nat × Nat} {start : Nat} {lines : List (List Char)} : claim ∈ claimsFrom start lines ↔
    ∃ before inclusive after, lines = before ++ inclusive :: after ∧
      claim ∈ lineClaims (start + byteLen before.flatten) inclusive := by
  induction lines generalizing start with
  | nil => simp [claimsFrom]
  | cons first rest ih =>
    rw [claimsFrom_cons, List.mem_append, ih]
    constructor
    · rintro (here | ⟨before, inclusive, after, rfl, later⟩)
      · exact ⟨[], first, rest, rfl, by simpa using here⟩
      · refine ⟨first :: before, inclusive, after, rfl, ?_⟩
        rwa [List.flatten_cons, byteLen_append, ← Nat.add_assoc]
    · rintro ⟨before, inclusive, after, whole, listed⟩
      cases before with
      | nil =>
        obtain ⟨rfl, rfl⟩ := List.cons.inj whole
        exact Or.inl (by simpa using listed)
      | cons other before =>
        obtain ⟨rfl, rfl⟩ := List.cons.inj whole
        rw [List.flatten_cons, byteLen_append, ← Nat.add_assoc] at listed
        exact Or.inr ⟨before, inclusive, after, rfl, listed⟩

theorem linesInclusive_flatten (held rest : List Char) : (linesInclusive held rest).flatten = held ++ rest := by
  induction rest generalizing held with
  | nil =>
    rw [linesInclusive]
    split
    · rename_i none_
      rw [none_]
      rfl
    · simp
  | cons c rest ih =>
    rw [linesInclusive]
    split
    · rw [List.flatten_cons, ih]
      simp
    · rw [ih]
      simp

theorem claimOf_words {offset : Nat} {piece : List Char} {claim : Nat × Nat} (is : claimOf offset piece = some claim) :
    Lies piece (claim.1 - offset) (claim.2 - offset) (trim piece) ∧ offset ≤ claim.1 ∧
      ∀ w ∈ wordsAt offset piece, claim.1 ≤ w.start ∧ w.stop ≤ claim.2 := by
  rw [claimOf] at is
  split at is
  · cases is
  obtain rfl := Option.some.inj is
  obtain ⟨lead, blank, opened⟩ := trimStart_parts piece
  obtain ⟨tail, white, closed⟩ := trim_parts piece
  have length := congrArg byteLen opened
  rw [byteLen_append] at length
  have first : byteLen piece - byteLen (trimStart piece) = byteLen lead := by omega
  dsimp only
  rw [first]
  refine ⟨⟨lead, tail, ?_, ?_, ?_⟩, ?_, ?_⟩
  · rw [List.append_assoc, ← closed, ← opened]
  · omega
  · omega
  · omega
  · have moved : wordsAt offset piece = wordsAt (offset + byteLen lead) (trim piece) := by
      conv_lhs => rw [opened, closed]
      rw [wordsAt_gap blank, wordsAt_append white.breaks, wordsAt_blank white, List.append_nil]
    intro w listed
    rw [moved] at listed
    have placed := (wordsAt_laid _ _).placed.1 w listed
    omega

structure Claimed (answer : List Char) (claims : List (Nat × Nat)) : Prop where
  ordered : claims.Pairwise fun a b => a.2 ≤ b.1
  lies : ∀ claim ∈ claims, claim.1 < claim.2 ∧ ∃ text, Lies answer claim.1 claim.2 text
  apart : ∀ claim ∈ claims, ∃ before inclusive after, linesInclusive [] answer = before ++ inclusive :: after ∧
    names_a_citation (lineOf inclusive) = false ∧ byteLen before.flatten ≤ claim.1 ∧
    claim.2 ≤ byteLen before.flatten + byteLen (lineOf inclusive)
  covers : ∀ before inclusive after, linesInclusive [] answer = before ++ inclusive :: after →
    names_a_citation (lineOf inclusive) = false → ∃ pieces, Split closing isAsciiWhitespace (contentOf inclusive) pieces ∧
      ∀ earlier piece later, pieces = earlier ++ piece :: later → MINIMUM_CLAIM_WORDS ≤ (words piece).length →
        ∃ claim ∈ claims, ∀ w ∈ wordsAt (byteLen before.flatten + decoration_length (lineOf inclusive) +
          byteLen earlier.flatten) piece, claim.1 ≤ w.start ∧ w.stop ≤ claim.2

theorem segment_claimed (answer : List Char) : Claimed answer (segment answer) := by
  have ranged := claimsFrom_ranged 0 (linesInclusive [] answer)
  have member (claim : Nat × Nat) := @mem_claimsFrom claim 0 (linesInclusive [] answer)
  simp only [Nat.zero_add] at member
  refine ⟨ranged.ordered, ?_, ?_, ?_⟩
  · intro claim listed
    refine ⟨(ranged.within claim listed).2.1, ?_⟩
    obtain ⟨before, inclusive, after, whole, here⟩ := (member claim).mp listed
    have unnamed := lineClaims_unnamed here
    obtain ⟨pieces, split, is⟩ := lineClaims_pieces (byteLen before.flatten) inclusive unnamed
    rw [is] at here
    obtain ⟨earlier, piece, later, rfl, made⟩ := mem_pieceClaims.mp here
    obtain ⟨inner, above, _⟩ := claimOf_words made
    obtain ⟨decoration, decorated⟩ := contentOf_suffix inclusive
    obtain ⟨returns, returned⟩ := lineOf_parts inclusive
    have text : answer = before.flatten ++ decoration ++ earlier.flatten ++ piece ++
      (later.flatten ++ returns ++ after.flatten) := by
      have flat := linesInclusive_flatten [] answer
      have content : contentOf inclusive = earlier.flatten ++ (piece ++ later.flatten) := by
        rw [← split.whole, List.flatten_append, List.flatten_cons]
      rw [whole, List.nil_append, List.flatten_append, List.flatten_cons, returned, ← decorated, content] at flat
      rw [← flat]
      simp only [List.append_assoc]
    have length := decoration_eq inclusive
    have decoration_is := congrArg byteLen decorated
    rw [byteLen_append] at decoration_is
    have start : byteLen (before.flatten ++ decoration ++ earlier.flatten) =
        byteLen before.flatten + decoration_length (lineOf inclusive) + byteLen earlier.flatten := by
      simp only [byteLen_append]
      omega
    have lies : Lies answer (byteLen before.flatten + decoration_length (lineOf inclusive) + byteLen earlier.flatten) _ piece :=
      ⟨_, _, text, start, rfl⟩
    have inside := lies.inside inner
    have ordered := (ranged.within claim listed).2.1
    rw [Nat.add_sub_cancel' above, Nat.add_sub_cancel' (by omega)] at inside
    exact ⟨_, inside⟩
  · intro claim listed
    obtain ⟨before, inclusive, after, whole, here⟩ := (member claim).mp listed
    have within := (lineClaims_ranged _ _).within claim here
    exact ⟨before, inclusive, after, whole, lineClaims_unnamed here, within.1, within.2.2⟩
  · intro before inclusive after whole unnamed
    obtain ⟨pieces, split, is⟩ := lineClaims_pieces (byteLen before.flatten) inclusive unnamed
    refine ⟨pieces, split, ?_⟩
    intro earlier piece later parts long
    obtain ⟨claim, made⟩ : ∃ claim, claimOf (byteLen before.flatten + decoration_length (lineOf inclusive) +
        byteLen earlier.flatten) piece = some claim := by
      rw [claimOf, if_neg (by omega)]
      exact ⟨_, rfl⟩
    refine ⟨claim, (member claim).mpr ⟨before, inclusive, after, whole, ?_⟩, (claimOf_words made).2.2⟩
    rw [is]
    exact mem_pieceClaims.mpr ⟨earlier, piece, later, parts, made⟩

end CommonMeasure.Grounding
