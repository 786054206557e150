import CommonMeasure.Grounding.Judged

/-!
# Copied from the window

The window shows each part under its label, its URL and its hash.
-/

namespace CommonMeasure.Grounding

open Declarations (lines)
open Integrity (Letters)
open Integrity.Fidelity (names_a_citation stripped)

def paired : List Char → Bool
  | [] => false
  | c :: rest => (c = ':' && rest.head? = some ':') || paired rest

inductive Decoration where
  | bare | angled | ticked

def Decoration.write : Decoration → List Char → List Char
  | .bare, url => url
  | .angled, url => '<' :: (url ++ ['>'])
  | .ticked, url => '`' :: (url ++ ['`'])

/-- A URL as a model copies it: decorated, with the window's label, with the hash, and decorated again. -/
structure Copied where
  outer : Decoration
  labelled : Bool
  hashed : Bool
  inside : Decoration

def Copied.write (copied : Copied) (part : ContextPart) : List Char :=
  copied.outer.write ((if copied.labelled then LABEL else []) ++ copied.inside.write part.source_ref ++
    if copied.hashed then " [".toList ++ part.content_hash ++ "]".toList else [])

structure Citable (part : ContextPart) : Prop where
  url : Solid part.source_ref
  hash : Solid part.content_hash
  digest : "sha256:".toList <+: part.content_hash
  plain : inner part.source_ref = none
  apart : paired part.source_ref = false ∧ paired part.content_hash = false
  own : part.source_ref ≠ URL_PLACEHOLDER ∧ part.source_ref ≠ "SOURCE".toList

def cited_line (copied : Copied) (part : ContextPart) (quote : List Char) : List Char :=
  MARKER ++ " ".toList ++ copied.write part ++ " :: \"".toList ++ quote ++ "\"".toList

theorem paired_append (a b : List Char) (apart : a.getLast? ≠ some ':' ∨ b.head? ≠ some ':') :
    paired (a ++ b) = (paired a || paired b) := by
  induction a with
  | nil => rfl
  | cons c a ih =>
    cases a with
    | nil =>
      rw [List.singleton_append, paired, paired, paired]
      rcases apart with last | first
      · have other : c ≠ ':' := by simpa using last
        simp [other]
      · simp [first]
    | cons d a =>
      have later := ih (by simpa using apart)
      show ((c = ':' && (d :: a ++ b).head? = some ':') || paired (d :: a ++ b)) = _
      rw [later, ← Bool.or_assoc]
      rfl

theorem split_once_eq {before : List Char} (after : List Char) (plain : paired before = false)
    (ends : before.getLast? ≠ some ':') : split_once (before ++ ':' :: ':' :: after) = some (before, after) := by
  induction before with
  | nil => rfl
  | cons c before ih =>
    rw [paired, Bool.or_eq_false_iff] at plain
    have other : ¬(c = ':' ∧ (before ++ ':' :: ':' :: after).head? = some ':') := by
      rintro ⟨rfl, next⟩
      cases before with
      | nil => exact ends rfl
      | cons d before => simp_all
    have later : before.getLast? ≠ some ':' := by
      cases before with
      | nil => simp
      | cons d before => simpa using ends
    rw [List.cons_append, split_once, if_neg other, ih plain.2 later]
    rfl

def Tight (text : List Char) : Prop :=
  (∀ c ∈ text.head?, isWhitespace c = false) ∧ ∀ c ∈ text.getLast?, isWhitespace c = false

theorem trim_tight {text : List Char} (tight : Tight text) : trim text = text := by
  have led : trimStart text = text := by
    cases text with
    | nil => rfl
    | cons c rest => exact List.dropWhile_cons_of_neg (by simp [tight.1 c rfl])
  rw [trim, led, List.rdropWhile_eq_self_iff]
  intro some_
  simp [tight.2 _ (List.getLast?_eq_some_getLast some_)]

theorem tight_of_solid {text : List Char} (solid : Solid text) : Tight text :=
  ⟨fun c listed => solid.2 c (List.mem_of_mem_head? listed), fun c listed => solid.2 c (List.mem_of_mem_getLast? listed)⟩

theorem trim_spaced {text : List Char} (tight : Tight text) : trim (' ' :: (text ++ [' '])) = text := by
  have space : Blank [' '] := by
    intro c listed
    rw [List.mem_singleton.mp listed]
    decide
  have spaced : ' ' :: (text ++ [' ']) = [' '] ++ (text ++ [' ']) := rfl
  rw [spaced, trim_white_left space, trim_white_right text space, trim_tight tight]

theorem inner_write {decoration : Decoration} {url : List Char} : inner (decoration.write url) =
    match decoration with
    | .bare => inner url
    | _ => some url := by
  cases decoration with
  | bare => rfl
  | angled => simp [Decoration.write, inner, enclosed]
  | ticked => simp [Decoration.write, inner, enclosed]

theorem undecorated_stop {url : List Char} (plain : inner url = none) (turns : Nat) : undecorated turns url = url := by
  cases turns with
  | zero => rfl
  | succ turns => rw [undecorated, plain]

theorem undecorated_write {decoration : Decoration} {url : List Char} (plain : inner url = none) (tight : Tight url)
    (turns : Nat) : undecorated (turns + 1) (decoration.write url) = url := by
  cases decoration with
  | bare => exact undecorated_stop plain _
  | angled =>
    rw [undecorated, inner_write]
    dsimp only
    rw [trim_tight tight, undecorated_stop plain]
  | ticked =>
    rw [undecorated, inner_write]
    dsimp only
    rw [trim_tight tight, undecorated_stop plain]

theorem write_solid {decoration : Decoration} {url : List Char} (solid : Solid url) : Solid (decoration.write url) := by
  have marks : isWhitespace '<' = false ∧ isWhitespace '>' = false ∧ isWhitespace '`' = false := by decide
  cases decoration with
  | bare => exact solid
  | angled =>
    refine ⟨List.cons_ne_nil _ _, fun c listed => ?_⟩
    simp only [Decoration.write, List.mem_cons, List.mem_append, List.not_mem_nil, or_false] at listed
    rcases listed with rfl | inside | rfl
    · exact marks.1
    · exact solid.2 c inside
    · exact marks.2.1
  | ticked =>
    refine ⟨List.cons_ne_nil _ _, fun c listed => ?_⟩
    simp only [Decoration.write, List.mem_cons, List.mem_append, List.not_mem_nil, or_false] at listed
    rcases listed with rfl | inside | rfl
    · exact marks.2.2
    · exact solid.2 c inside
    · exact marks.2.2

theorem write_tight {decoration : Decoration} {url : List Char} (tight : Tight url) : Tight (decoration.write url) := by
  have marks : isWhitespace '<' = false ∧ isWhitespace '>' = false ∧ isWhitespace '`' = false := by decide
  have between {c d : Char} (opens : isWhitespace c = false) (closes : isWhitespace d = false) : Tight ((c :: url) ++ [d]) := by
    refine ⟨fun e first => ?_, fun e last => ?_⟩
    · obtain rfl : c = e := by simpa using first
      exact opens
    · rw [List.getLast?_concat] at last
      obtain rfl : d = e := by simpa using last
      exact closes
  cases decoration with
  | bare => exact tight
  | angled => exact between marks.1 marks.2.1
  | ticked => exact between marks.2.2 marks.2.2

section

variable {part : ContextPart}

def bracketed (part : ContextPart) : List Char := '[' :: (part.content_hash ++ [']'])

theorem bracketed_solid (citable : Citable part) : Solid (bracketed part) := by
  have marks : isWhitespace '[' = false ∧ isWhitespace ']' = false := by decide
  refine ⟨List.cons_ne_nil _ _, fun c listed => ?_⟩
  simp only [bracketed, List.mem_cons, List.mem_append, List.not_mem_nil, or_false] at listed
  rcases listed with rfl | inside | rfl
  · exact marks.1
  · exact citable.hash.2 c inside
  · exact marks.2

theorem rsplit_once_solid {text : List Char} (solid : Solid text) : rsplit_once text = none := by
  have whole : text.rtakeWhile (fun c => !isWhitespace c) = text :=
    List.rtakeWhile_eq_self_iff.mpr fun c listed => by simp [solid.2 c listed]
  rw [rsplit_once, whole, if_pos rfl]

theorem rsplit_once_spaced {head tail : List Char} (solid : Solid tail) :
    rsplit_once (head ++ ' ' :: tail) = some (head, tail) := by
  have each : ∀ c ∈ tail.reverse, (!isWhitespace c) = true := fun c listed => by simp [solid.2 c (List.mem_reverse.mp listed)]
  have last : (head ++ ' ' :: tail).rtakeWhile (fun c => !isWhitespace c) = tail := by
    have space : (!isWhitespace ' ') = false := by decide
    rw [List.rtakeWhile, List.reverse_append, List.reverse_cons, List.append_assoc, List.takeWhile_append_of_pos each,
      List.singleton_append, List.takeWhile_cons_of_neg (by simp [space]), List.append_nil, List.reverse_reverse]
  have length : (head ++ ' ' :: tail).length - tail.length = head.length + 1 := by
    rw [List.length_append, List.length_cons]
    omega
  rw [rsplit_once, last, length, if_neg (by rw [List.length_append, List.length_cons]; omega)]
  have kept : (head ++ ' ' :: tail).take (head.length + 1) = head ++ [' '] := by
    rw [List.take_append, List.take_of_length_le (by omega)]
    simp
  rw [kept, List.dropLast_concat]

theorem trim_end_solid {text : List Char} (solid : Solid text) : trim_end text = text := by
  rw [trim_end, List.rdropWhile_eq_self_iff]
  intro some_
  simp [solid.2 _ (List.getLast_mem some_)]

theorem tight_around {front url back : List Char} (solid : Solid url) (opens : ∀ c ∈ front.head?, isWhitespace c = false)
    (closes : ∀ c ∈ back.getLast?, isWhitespace c = false) : Tight (front ++ url ++ back) := by
  obtain ⟨first, last⟩ := tight_of_solid solid
  constructor
  · cases front with
    | nil =>
      obtain ⟨c, rest, rfl⟩ := List.exists_cons_of_ne_nil solid.1
      exact first
    | cons c front => exact opens
  · rcases List.eq_nil_or_concat back with rfl | ⟨rest, c, rfl⟩
    · rwa [List.append_nil, List.getLast?_append_of_ne_nil _ solid.1]
    · rw [List.concat_eq_append, List.getLast?_concat] at closes
      rwa [List.concat_eq_append, ← List.append_assoc, List.getLast?_concat]

theorem framed_tight (citable : Citable part) {url : List Char} (solid : Solid url) (labelled hashed : Bool) :
    Tight ((if labelled then LABEL else []) ++ url ++ if hashed then ' ' :: bracketed part else []) := by
  have inside := tight_of_solid (bracketed_solid citable)
  apply tight_around solid
  · intro c first
    cases labelled with
    | false => cases first
    | true =>
      obtain rfl : 'S' = c := Option.some.inj first
      decide
  · cases hashed with
    | false => exact fun c none_ => by cases none_
    | true => exact inside.2

theorem unlabel_eq (citable : Citable part) {url : List Char} (solid : Solid url) (own : url ≠ "SOURCE".toList)
    (labelled hashed : Bool) :
    unlabel_url ((if labelled then LABEL else []) ++ url ++ if hashed then ' ' :: bracketed part else []) = url := by
  obtain ⟨rest, restIs⟩ : ∃ rest, url ++ (if hashed then ' ' :: bracketed part else []) = rest := ⟨_, rfl⟩
  have tight : Tight rest := by
    rw [← restIs]
    exact framed_tight citable solid false hashed
  have unlabelled : (if LABEL <+: (if labelled then LABEL else []) ++ url ++ (if hashed then ' ' :: bracketed part else []) then
      trim (((if labelled then LABEL else []) ++ url ++ if hashed then ' ' :: bracketed part else []).drop LABEL.length)
      else (if labelled then LABEL else []) ++ url ++ if hashed then ' ' :: bracketed part else []) = rest := by
    rw [List.append_assoc, restIs]
    cases labelled with
    | true =>
      rw [if_pos rfl, if_pos (List.prefix_append _ _), List.drop_left]
      exact trim_tight tight
    | false =>
      rw [if_neg Bool.false_ne_true, List.nil_append, if_neg]
      rintro ⟨more, is⟩
      have kept : ∀ c ∈ url, (!isWhitespace c) = true := fun c listed => by simp [solid.2 c listed]
      have first : rest.takeWhile (fun c => !isWhitespace c) = url := by
        rw [← restIs, List.takeWhile_append_of_pos kept]
        cases hashed
        all_goals simp [show isWhitespace ' ' = true from rfl]
      have word : ∀ c ∈ "SOURCE".toList, (!isWhitespace c) = true := List.all_eq_true.mp (by decide)
      rw [← is, show LABEL = "SOURCE".toList ++ [' '] from rfl, List.append_assoc, List.takeWhile_append_of_pos word,
        List.singleton_append, List.takeWhile_cons_of_neg (by decide), List.append_nil] at first
      exact own first.symm
  rw [unlabel_url, unlabelled, ← restIs]
  cases hashed with
  | false =>
    rw [if_neg Bool.false_ne_true, List.append_nil, rsplit_once_solid solid]
  | true =>
    have digest : HASH <+: bracketed part ∧ (bracketed part).getLast? = some ']' := by
      refine ⟨?_, List.getLast?_concat (l := '[' :: part.content_hash)⟩
      obtain ⟨more, is⟩ := citable.digest
      exact ⟨more ++ [']'], by rw [bracketed, ← is]; rfl⟩
    rw [if_pos rfl, rsplit_once_spaced (bracketed_solid citable)]
    dsimp only
    rw [if_pos digest, trim_end_solid solid]

theorem inner_label (rest : List Char) : inner (LABEL ++ rest) = none := by
  rw [show LABEL ++ rest = 'S' :: ("OURCE ".toList ++ rest) from rfl]
  simp [inner, enclosed]

theorem inner_bracketed (front : List Char) : inner (front ++ bracketed part) = none := by
  have last : (front ++ bracketed part).getLast? = some ']' := by
    rw [bracketed, ← List.cons_append, ← List.append_assoc, List.getLast?_concat]
  cases whole : front ++ bracketed part with
  | nil => rfl
  | cons c rest =>
    have other (d : Char) (apart : d ≠ ']') : rest.getLast? ≠ some d := by
      intro ends
      rw [whole, List.getLast?_cons, ends] at last
      exact apart (Option.some.inj last)
    rw [inner, enclosed, enclosed, if_neg fun both => other '`' (by decide) both.2,
      if_neg fun both => other '>' (by decide) both.2]
    rfl

theorem undecorate_spaced {text : List Char} (tight : Tight text) :
    undecorate_url (' ' :: (text ++ [' '])) = undecorated text.length text := by
  rw [undecorate_url, trim_spaced tight]

theorem undecorated_some {decoration : Decoration} {url : List Char} (plain : inner url = none) (tight : Tight url)
    (some_ : url ≠ []) : undecorated (decoration.write url).length (decoration.write url) = url := by
  have long : decoration.write url ≠ [] := by
    cases decoration with
    | bare => exact some_
    | angled => exact List.cons_ne_nil _ _
    | ticked => exact List.cons_ne_nil _ _
  obtain ⟨turns, is⟩ := Nat.exists_eq_succ_of_ne_zero fun none_ => long (List.eq_nil_of_length_eq_zero none_)
  rw [is]
  exact undecorated_write plain tight turns

theorem undecorated_layers {outer inside : Decoration} {url : List Char} (plain : inner url = none) (solid : Solid url) :
    undecorated (outer.write (inside.write url)).length (outer.write (inside.write url)) = url := by
  have layer (c d : Char) (is : inner (c :: (inside.write url ++ [d])) = some (inside.write url)) :
      undecorated (c :: (inside.write url ++ [d])).length (c :: (inside.write url ++ [d])) = url := by
    have step (turns : Nat) : undecorated (turns + 1) (c :: (inside.write url ++ [d])) = undecorated turns (inside.write url) := by
      rw [undecorated, is]
      dsimp only
      rw [trim_tight (write_tight (tight_of_solid solid))]
    rw [List.length_cons, List.length_append, step]
    exact undecorated_write plain (tight_of_solid solid) (inside.write url).length
  cases outer with
  | bare => exact undecorated_some plain (tight_of_solid solid) solid.1
  | angled => exact layer '<' '>' (@inner_write .angled _)
  | ticked => exact layer '`' '`' (@inner_write .ticked _)

theorem cited_url_copied (citable : Citable part) (copied : Copied) :
    cited_url (' ' :: (copied.write part ++ [' '])) = part.source_ref := by
  obtain ⟨outer, labelled, hashed, inside⟩ := copied
  have solid := @write_solid inside _ citable.url
  have own : inside.write part.source_ref ≠ "SOURCE".toList := by
    cases inside with
    | bare => exact citable.own.2
    | angled => simp [Decoration.write]
    | ticked => simp [Decoration.write]
  have once : undecorate_url (inside.write part.source_ref) = part.source_ref := by
    rw [undecorate_url, trim_tight (tight_of_solid solid)]
    exact undecorated_some citable.plain (tight_of_solid citable.url) citable.url.1
  obtain ⟨content, written⟩ : ∃ content, (if labelled then LABEL else []) ++ inside.write part.source_ref ++
    (if hashed then ' ' :: bracketed part else []) = content := ⟨_, rfl⟩
  have whole : (Copied.mk outer labelled hashed inside).write part = outer.write content := by
    rw [← written]
    cases hashed
    all_goals rfl
  have tight : Tight content := written ▸ framed_tight citable solid labelled hashed
  have some_ : content ≠ [] := by
    rw [← written]
    exact List.append_ne_nil_of_left_ne_nil (List.append_ne_nil_of_right_ne_nil _ solid.1) _
  rw [whole, cited_url, undecorate_spaced (write_tight tight)]
  have framed : labelled || hashed → inner content = none := by
    intro either
    rw [← written]
    cases labelled with
    | true => exact List.append_assoc LABEL _ _ ▸ inner_label _
    | false =>
      obtain rfl : hashed = true := either
      have spaced := @inner_bracketed part (inside.write part.source_ref ++ [' '])
      rwa [List.append_assoc] at spaced
  by_cases bare : (labelled || hashed) = true
  · rw [undecorated_some (framed bare) tight some_, ← written, unlabel_eq citable solid own, once]
  · obtain ⟨rfl, rfl⟩ : labelled = false ∧ hashed = false := by simpa using bare
    have alone : content = inside.write part.source_ref := by
      simpa using written.symm
    have unlabelled := unlabel_eq citable citable.url citable.own.2 false false
    have undecorate : undecorate_url part.source_ref = part.source_ref := by
      rw [undecorate_url, trim_tight (tight_of_solid citable.url), undecorated_stop citable.plain]
    rw [alone, undecorated_layers citable.plain citable.url]
    simpa [undecorate] using congrArg undecorate_url unlabelled

/-! ### The line it is copied to -/

theorem paired_between (c d : Char) (text : List Char) (opens : c ≠ ':') (closes : d ≠ ':') :
    paired (c :: (text ++ [d])) = paired text := by
  have last : paired (text ++ [d]) = (paired text || paired [d]) := paired_append text [d] (Or.inr (by simpa using closes))
  rw [paired, last, paired]
  simp [opens, paired, closes]

theorem paired_write (decoration : Decoration) (url : List Char) : paired (decoration.write url) = paired url := by
  cases decoration with
  | bare => rfl
  | angled => exact paired_between '<' '>' url (by decide) (by decide)
  | ticked => exact paired_between '`' '`' url (by decide) (by decide)

theorem copied_apart (citable : Citable part) (copied : Copied) : paired (' ' :: (copied.write part ++ [' '])) = false := by
  obtain ⟨outer, labelled, hashed, inside⟩ := copied
  have url : paired (inside.write part.source_ref) = false := (paired_write _ _).trans citable.apart.1
  have hash : paired (' ' :: bracketed part) = false := by
    rw [paired, bracketed, paired_between _ _ _ (by decide) (by decide), citable.apart.2]
    rfl
  have back : paired (if hashed then ' ' :: bracketed part else []) = false := by
    cases hashed
    all_goals first | rfl | exact hash
  have front : paired (if labelled then LABEL else []) = false := by
    cases labelled
    all_goals rfl
  have whole : (Copied.mk outer labelled hashed inside).write part = outer.write ((if labelled then LABEL else []) ++
      inside.write part.source_ref ++ if hashed then ' ' :: bracketed part else []) := by
    cases hashed
    all_goals rfl
  rw [paired_between _ _ _ (by decide) (by decide), whole, paired_write, paired_append, paired_append, front, url, back]
  · rfl
  · left
    cases labelled
    all_goals decide
  · right
    cases hashed
    all_goals simp

def cited_body (copied : Copied) (part : ContextPart) (quote : List Char) : List Char :=
  ' ' :: (copied.write part ++ [' ']) ++ ':' :: ':' :: ' ' :: '"' :: (quote ++ ['"'])

theorem cited_line_eq (copied : Copied) (quote : List Char) :
    cited_line copied part quote = MARKER ++ cited_body copied part quote := by
  have marks : " :: \"".toList = [' ', ':', ':', ' ', '"'] ∧ " ".toList = [' '] ∧ "\"".toList = ['"'] := by decide
  rw [cited_line, cited_body, marks.1, marks.2.1, marks.2.2]
  simp only [List.append_assoc, List.cons_append, List.nil_append]

theorem citation_body_cited (copied : Copied) (quote : List Char) :
    citation_body (cited_line copied part quote) = some (cited_body copied part quote) := by
  have tight : Tight (cited_line copied part quote) := by
    constructor
    · intro c first
      rw [cited_line_eq, show MARKER = 'C' :: "ITATION:".toList from rfl, List.cons_append] at first
      obtain rfl : 'C' = c := Option.some.inj first
      decide
    · intro c last
      have ends : (cited_line copied part quote).getLast? = some '"' := by
        rw [cited_line, show "\"".toList = ['"'] from rfl, List.getLast?_concat]
      obtain rfl : '"' = c := Option.some.inj (ends.symm.trans last)
      decide
  have still : stripped (cited_line copied part quote) = cited_line copied part quote := by
    rw [cited_line_eq, show MARKER = 'C' :: "ITATION:".toList from rfl, List.cons_append, stripped,
      List.dropWhile_cons_of_neg (by decide), List.dropWhile_cons_of_neg (by decide), List.dropWhile_cons_of_neg (by decide)]
  rw [citation_body, trim_tight tight, Function.iterate_fixed still, cited_line_eq, List.take_left, List.drop_left, if_pos rfl]
  rfl

theorem quoted_cited {quote : List Char} (some_ : trim quote ≠ []) :
    quoted (' ' :: '"' :: (quote ++ ['"'])) = some (trim quote) := by
  have mark : isWhitespace '"' = false := by decide
  have tight : Tight ('"' :: (quote ++ ['"'])) := by
    have between : Tight ([] ++ ['"'] ++ (quote ++ ['"'])) := by
      apply tight_around
      · exact ⟨List.cons_ne_nil _ _, fun c listed => List.mem_singleton.mp listed ▸ mark⟩
      · exact fun c none_ => by cases none_
      · rw [List.getLast?_concat]
        exact fun c last => Option.some.inj last ▸ mark
    exact between
  have space : Blank [' '] := fun c listed => List.mem_singleton.mp listed ▸ rfl
  rw [quoted, show ' ' :: '"' :: (quote ++ ['"']) = [' '] ++ '"' :: (quote ++ ['"']) from rfl, trim_white_left space,
    trim_tight tight, enclosed, if_pos ⟨rfl, List.getLast?_concat⟩]
  dsimp only
  rw [List.dropLast_concat, if_neg some_]

theorem cited_line_reads (citable : Citable part) (copied : Copied) {quote : List Char} (some_ : trim quote ≠ []) :
    Reads (cited_line copied part quote) part.source_ref (trim quote) := by
  refine ⟨_, _, _, citation_body_cited copied quote, ?_, cited_url_copied citable copied, citable.url.1, quoted_cited some_⟩
  apply split_once_eq _ (copied_apart citable copied)
  rw [← List.cons_append, List.getLast?_concat]
  decide

theorem words_trim (text : List Char) : (words (trim text)).map Word.text = (words text).map Word.text := by
  obtain ⟨lead, blank, whole⟩ := trimStart_parts text
  obtain ⟨tail, white, rest⟩ := trim_parts text
  have moved : words text = wordsAt (0 + byteLen lead) (trim text) := by
    conv_lhs => rw [words, whole, rest]
    rw [wordsAt_gap blank, wordsAt_append white.breaks, wordsAt_blank white, List.append_nil]
  rw [moved]
  exact wordsFrom_texts 0 _ [] (trim text)

structure Quotes (part : ContextPart) (quote : List Char) : Prop where
  run : ∃ before run after, words part.text = before ++ run ++ after ∧ run ≠ [] ∧
    (words quote).map Word.text = run.map Word.text
  own : trim quote ≠ QUOTE_PLACEHOLDER

theorem Quotes.some {quote : List Char} (quotes : Quotes part quote) : trim quote ≠ [] := by
  obtain ⟨_, run, _, _, some_, texts⟩ := quotes.run
  intro none_
  rw [← words_trim, none_] at texts
  exact some_ (List.map_eq_nil_iff.mp texts.symm)

theorem cited_line_supported {letters : Letters} {parts : List ContextPart} (listed : part ∈ parts) (citable : Citable part)
    {quote : List Char} (quotes : Quotes part quote) (copied : Copied) :
    ∃ citation, citation_of letters parts (cited_line copied part quote) = some citation ∧
      citation.url = some part.source_ref ∧ citation.quote = some (trim quote) ∧ citation.verdict = .supported := by
  have reads := cited_line_reads citable copied quotes.some
  have named := body_names (@citation_body_cited part copied quote)
  obtain ⟨citation, is⟩ := Option.isSome_iff_exists.mp ((citation_isSome letters parts _).trans named)
  have judged := citation_judged is
  have cites : Cites part.source_ref (trim quote) := ⟨citable.own.1, quotes.own⟩
  obtain ⟨before, run, after, split, some_, texts⟩ := quotes.run
  have occurs : Occurs letters (trim quote) part.text := occurs_own split some_ ((words_trim quote).trans texts)
  obtain ⟨url, quote_⟩ := judged.named _ _ reads cites
  exact ⟨citation, is, url, quote_, (judged.supported _ _ reads cites).mpr ⟨part, listed, rfl, occurs⟩⟩

end

/-- One citation for each line that names one, in order, under the four verdicts; each says what the parts hold, and what is
copied from the window with a part's own words is supported. -/
theorem grounding_judges (letters : Letters) (answer : List Char) (parts : List ContextPart) :
    List.Forall₂ (fun line citation => citation_of letters parts line = some citation ∧ Judged letters parts line citation)
      ((lines answer).filter names_a_citation) (grounding letters ⟨some answer, true, parts⟩).citations ∧
    (let counts := (grounding letters ⟨some answer, true, parts⟩).verdict_counts;
      counts .supported + counts .contradicted + counts .uncovered + counts .unavailable =
        (grounding letters ⟨some answer, true, parts⟩).citations.length) ∧
    ∀ part ∈ parts, Citable part → ∀ copied quote, Quotes part quote → cited_line copied part quote ∈ lines answer →
      ∃ citation ∈ (grounding letters ⟨some answer, true, parts⟩).citations,
        citation_of letters parts (cited_line copied part quote) = some citation ∧
        citation.url = some part.source_ref ∧ citation.quote = some (trim quote) ∧ citation.verdict = .supported := by
  have cites : (grounding letters ⟨some answer, true, parts⟩).citations = (lines answer).filterMap (citation_of letters parts) := by
    rw [grounding, unevaluated]
    dsimp only
    by_cases blank : trim answer = []
    · rw [if_pos blank]
      symm
      rw [List.filterMap_eq_nil_iff]
      intro line listed
      rw [← Option.isNone_iff_eq_none, ← Option.not_isSome, citation_isSome, blank_unnamed blank listed]
      rfl
    · rw [if_neg blank]
      rfl
  rw [cites]
  refine ⟨?_, ?_, ?_⟩
  · refine (filterMap_named (citation_isSome letters parts) (lines answer)).imp fun line citation is => ?_
    exact ⟨is, citation_judged is⟩
  · rw [← cites]
    exact counts_sum _
  · intro part listed citable copied quote quotes line
    obtain ⟨citation, is, rest⟩ := @cited_line_supported part letters parts listed citable _ quotes copied
    exact ⟨citation, List.mem_filterMap.mpr ⟨_, line, is⟩, is, rest⟩

/-- The header of the window's part, copied whole. -/
theorem grounding_judges_header :
    let part : ContextPart := ⟨"https://example.org/a".toList, "sha256:aa".toList, "the cap is set twice a year".toList⟩
    let answer := "Twice.\nCITATION: SOURCE https://example.org/a [sha256:aa] :: \"the cap is set\"".toList
    ∃ citation ∈ (grounding .ascii ⟨some answer, true, [part]⟩).citations,
      citation.url = some part.source_ref ∧ citation.verdict = .supported := by
  intro part answer
  have solid {text : List Char} (some_ : text ≠ []) (all : (text.all fun c => !isWhitespace c) = true) : Solid text :=
    ⟨some_, fun c listed => by simpa using List.all_eq_true.mp all c listed⟩
  have citable : Citable part := by
    refine ⟨solid (by decide) (by decide), solid (by decide) (by decide), by decide, by decide, by decide, by decide⟩
  have quotes : Quotes part "the cap is set".toList := by
    refine ⟨⟨[], (words part.text).take 4, (words part.text).drop 4, ?_, by decide, by decide⟩, by decide⟩
    rw [List.nil_append, List.take_append_drop]
  have line : cited_line ⟨.bare, true, true, .bare⟩ part "the cap is set".toList ∈ lines answer := by decide
  obtain ⟨citation, listed, _, url, _, verdict⟩ :=
    (grounding_judges .ascii answer [part]).2.2 part List.mem_cons_self citable _ _ quotes line
  exact ⟨citation, listed, url, verdict⟩

/-- The pair of colons of an address is taken for the separator. -/
theorem not_every_part_supported : ¬∀ (letters : Letters) (answer : List Char) (parts : List ContextPart), ∀ part ∈ parts,
    ∀ copied quote, (∃ before run after, words part.text = before ++ run ++ after ∧ run ≠ [] ∧
      (words quote).map Word.text = run.map Word.text) → '"' ∉ quote → cited_line copied part quote ∈ lines answer →
      ∃ citation, citation_of letters parts (cited_line copied part quote) = some citation ∧ citation.verdict = .supported := by
  intro every
  have text : words "the cap is set".toList = [] ++ words "the cap is set".toList ++ [] := by simp
  obtain ⟨citation, is, supported⟩ := every .ascii "CITATION: http://[::1]/a :: \"the cap is set\"".toList
    [⟨"http://[::1]/a".toList, "sha256:aa".toList, "the cap is set".toList⟩] _ List.mem_cons_self
    ⟨.bare, false, false, .bare⟩ "the cap is set".toList ⟨_, _, _, text, by decide, rfl⟩ (by decide) (by decide)
  have unread : (citation_of .ascii [⟨"http://[::1]/a".toList, "sha256:aa".toList, "the cap is set".toList⟩]
      "CITATION: http://[::1]/a :: \"the cap is set\"".toList).map Citation.verdict = some .unavailable := by decide
  have read := congrArg (Option.map Citation.verdict) is
  cases unread.symm.trans (read.trans (congrArg some supported))

end CommonMeasure.Grounding
