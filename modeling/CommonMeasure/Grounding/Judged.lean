import CommonMeasure.Grounding.Citations

namespace CommonMeasure.Grounding

open Declarations (lines)
open Integrity (Letters Span)
open Integrity.Fidelity (names_a_citation stripped)

/-! ### Lines -/

theorem stripped_suffix (turns : Nat) (line : List Char) : stripped^[turns] line <:+ line := by
  induction turns generalizing line with
  | zero => exact List.suffix_refl line
  | succ turns ih =>
    rw [Function.iterate_succ_apply]
    apply (ih (stripped line)).trans
    unfold stripped
    exact (List.dropWhile_suffix _).trans ((List.dropWhile_suffix _).trans (List.dropWhile_suffix _))

theorem names_iff {line : List Char} :
    names_a_citation line = true ↔ ∃ before after, line.map Char.toLower = before ++ ("citation:".toList ++ after) := by
  unfold names_a_citation
  rw [List.any_eq_true]
  constructor
  · rintro ⟨rest, listed, opens⟩
    obtain ⟨before, whole⟩ := (List.mem_tails _ _).mp listed
    obtain ⟨after, rfl⟩ := List.isPrefixOf_iff_prefix.mp opens
    exact ⟨before, after, whole.symm⟩
  · rintro ⟨before, after, whole⟩
    refine ⟨"citation:".toList ++ after, (List.mem_tails _ _).mpr ⟨before, whole.symm⟩, ?_⟩
    exact List.isPrefixOf_iff_prefix.mpr (List.prefix_append _ _)

theorem trim_inside (text : List Char) : ∃ before after, text = before ++ (trim text ++ after) := by
  obtain ⟨lead, _, whole⟩ := trimStart_parts text
  obtain ⟨tail, _, rest⟩ := trim_parts text
  exact ⟨lead, tail, by rw [← rest, ← whole]⟩

theorem body_names {line body : List Char} (read : citation_body line = some body) : names_a_citation line = true := by
  unfold citation_body at read
  dsimp only at read
  split at read
  · rename_i marked
    obtain ⟨before, after, whole⟩ := trim_inside line
    obtain ⟨decoration, rest⟩ := stripped_suffix (trim line).length (trim line)
    generalize stripped^[(trim line).length] (trim line) = content at marked rest
    have marker : MARKER.map Char.toLower = "citation:".toList := by decide
    refine names_iff.mpr ⟨(before ++ decoration).map Char.toLower, (content.drop MARKER.length ++ after).map Char.toLower, ?_⟩
    rw [← marker, ← marked, ← List.map_append, ← List.map_append, whole, ← rest]
    congr 1
    simp only [List.append_assoc]
    rw [← List.append_assoc (content.take _), List.take_append_drop]
  · cases read

section

variable (letters : Letters) (parts : List ContextPart)

theorem citation_isSome (line : List Char) : (citation_of letters parts line).isSome = names_a_citation line := by
  unfold citation_of
  split
  · rename_i read
    rw [body_names read]
    rfl
  · split
    · rename_i named
      rw [named]
      rfl
    · rename_i named
      rw [Option.isSome_none, eq_comm]
      simpa using named

theorem filterMap_named {α β : Type} {f : α → Option β} {p : α → Bool} (same : ∀ a, (f a).isSome = p a) (listed : List α) :
    List.Forall₂ (fun a b => f a = some b) (listed.filter p) (listed.filterMap f) := by
  induction listed with
  | nil => exact .nil
  | cons a rest ih =>
    rw [List.filterMap_cons, List.filter_cons, ← same a]
    cases is : f a with
    | none => simpa using ih
    | some b => exact .cons is ih

end

def Reads (line url quote : List Char) : Prop :=
  ∃ body url_part quote_part, citation_body line = some body ∧ split_once body = some (url_part, quote_part) ∧
    cited_url url_part = url ∧ url ≠ [] ∧ quoted quote_part = some quote

def Cites (url quote : List Char) : Prop := url ≠ URL_PLACEHOLDER ∧ quote ≠ QUOTE_PLACEHOLDER

structure Judged (letters : Letters) (parts : List ContextPart) (line : List Char) (citation : Citation) : Prop where
  supported : ∀ url quote, Reads line url quote → Cites url quote →
    (citation.verdict = .supported ↔ ∃ part ∈ parts, part.source_ref = url ∧ Occurs letters quote part.text)
  contradicted : ∀ url quote, Reads line url quote → Cites url quote →
    (citation.verdict = .contradicted ↔ (∃ part ∈ parts, part.source_ref = url) ∧
      ∀ part ∈ parts, part.source_ref = url → ¬Occurs letters quote part.text)
  uncovered : ∀ url quote, Reads line url quote → Cites url quote →
    (citation.verdict = .uncovered ↔ ∀ part ∈ parts, part.source_ref ≠ url)
  named : ∀ url quote, Reads line url quote → Cites url quote → citation.url = some url ∧ citation.quote = some quote
  unread : (∀ url quote, Reads line url quote → ¬Cites url quote) → citation.verdict = .unavailable
  excises : citation.verdict = .supported → ∃ part ∈ parts, ∃ matched quote, citation.matched = some matched ∧
    citation.quote = some quote ∧ matched.content_hash = part.content_hash ∧
    span_excises_to_quote letters part.text matched.span quote = true

section

variable {letters : Letters} {parts : List ContextPart} {line url quote : List Char}

theorem verdict_cases (letters : Letters) (parts : List ContextPart) (url quote : List Char) :
    ((verdict letters parts url quote).verdict = .uncovered ∧ ∀ part ∈ parts, part.source_ref ≠ url) ∨
    ((verdict letters parts url quote).verdict = .supported ∧ ∃ part ∈ parts, part.source_ref = url ∧ ∃ span,
      find_quote letters quote part.text = some span ∧
      (verdict letters parts url quote).matched = some ⟨part.content_hash, span⟩) ∨
    ((verdict letters parts url quote).verdict = .contradicted ∧ (∃ part ∈ parts, part.source_ref = url) ∧
      ∀ part ∈ parts, part.source_ref = url → ¬Occurs letters quote part.text) := by
  unfold verdict
  dsimp only
  split
  · rename_i none_
    exact Or.inl ⟨rfl, by simpa using List.filter_eq_nil_iff.mp none_⟩
  · rename_i some_
    have carried : ∃ part ∈ parts, part.source_ref = url := by
      obtain ⟨part, rest, is⟩ := List.exists_cons_of_ne_nil some_
      have listed := List.mem_filter.mp (is ▸ List.mem_cons_self : part ∈ parts.filter fun part => part.source_ref = url)
      exact ⟨part, listed.1, of_decide_eq_true listed.2⟩
    split
    · rename_i matched found
      obtain ⟨part, listed, is⟩ := List.exists_of_findSome?_eq_some found
      obtain ⟨span, excised, rfl⟩ := Option.map_eq_some_iff.mp is
      obtain ⟨inside, of_url⟩ := List.mem_filter.mp listed
      exact Or.inr (Or.inl ⟨rfl, part, inside, of_decide_eq_true of_url, span, excised, rfl⟩)
    · rename_i none_
      refine Or.inr (Or.inr ⟨rfl, carried, ?_⟩)
      intro part listed of_url occurs
      obtain ⟨span, found⟩ := Option.isSome_iff_exists.mp (find_quote_isSome.mpr occurs)
      have nothing := List.findSome?_eq_none_iff.mp none_ part (List.mem_filter.mpr ⟨listed, decide_eq_true of_url⟩)
      rw [found] at nothing
      cases nothing

@[simp] theorem verdict_named : (verdict letters parts url quote).url = some url ∧
    (verdict letters parts url quote).quote = some quote := by
  unfold verdict
  dsimp only
  split
  · exact ⟨rfl, rfl⟩
  · split <;> exact ⟨rfl, rfl⟩

theorem Reads.unique {other_url other_quote : List Char} (one : Reads line url quote)
    (other : Reads line other_url other_quote) :
    url = other_url ∧ quote = other_quote := by
  obtain ⟨body, url_part, quote_part, read, split, cited, _, quotes⟩ := one
  obtain ⟨_, _, _, read', split', cited', _, quotes'⟩ := other
  cases read.symm.trans read'
  cases split.symm.trans split'
  exact ⟨cited.symm.trans cited', Option.some.inj (quotes.symm.trans quotes')⟩

theorem judge_cases {body : List Char} (read : citation_body line = some body) :
    (∃ url quote, Reads line url quote ∧ Cites url quote ∧ judge letters parts body = verdict letters parts url quote) ∨
    ((∀ url quote, Reads line url quote → ¬Cites url quote) ∧ (judge letters parts body).verdict = .unavailable) := by
  have only {url quote : List Char} (reads : Reads line url quote) : ∃ url_part quote_part,
      split_once body = some (url_part, quote_part) ∧ cited_url url_part = url ∧ url ≠ [] ∧ quoted quote_part = some quote := by
    obtain ⟨_, url_part, quote_part, also, rest⟩ := reads
    obtain rfl := Option.some.inj (read.symm.trans also)
    exact ⟨url_part, quote_part, rest⟩
  cases parts_ : split_once body with
  | none =>
    rw [judge, parts_]
    refine Or.inr ⟨fun url quote reads => ?_, rfl⟩
    obtain ⟨_, _, split, _⟩ := only reads
    rw [parts_] at split
    cases split
  | some pair =>
    obtain ⟨url_part, quote_part⟩ := pair
    have same {url quote : List Char} (reads : Reads line url quote) :
        cited_url url_part = url ∧ url ≠ [] ∧ quoted quote_part = some quote := by
      obtain ⟨_, _, split, rest⟩ := only reads
      obtain ⟨rfl, rfl⟩ := Prod.mk.inj (Option.some.inj (parts_.symm.trans split))
      exact rest
    rw [judge, parts_]
    dsimp only
    by_cases empty : cited_url url_part = []
    · rw [if_pos empty]
      refine Or.inr ⟨fun url quote reads => ?_, rfl⟩
      exact absurd ((same reads).1.symm.trans empty) (same reads).2.1
    · rw [if_neg empty]
      cases quotes : quoted quote_part with
      | none =>
        refine Or.inr ⟨fun url quote reads => ?_, rfl⟩
        have also := (same reads).2.2
        rw [quotes] at also
        cases also
      | some quote =>
        have reads : Reads line (cited_url url_part) quote := ⟨body, url_part, quote_part, read, parts_, rfl, empty, quotes⟩
        dsimp only
        by_cases template : cited_url url_part = URL_PLACEHOLDER
        · rw [if_pos template]
          refine Or.inr ⟨fun url other also cites => cites.1 ?_, rfl⟩
          exact (same also).1.symm.trans template
        · rw [if_neg template]
          by_cases echo : quote = QUOTE_PLACEHOLDER
          · rw [if_pos echo]
            refine Or.inr ⟨fun url other also cites => cites.2 ?_, rfl⟩
            exact (Option.some.inj ((same also).2.2.symm.trans quotes)).trans echo
          · rw [if_neg echo]
            exact Or.inl ⟨_, _, reads, ⟨template, echo⟩, rfl⟩

theorem citation_cases {citation : Citation} (is : citation_of letters parts line = some citation) :
    (∃ url quote, Reads line url quote ∧ Cites url quote ∧ citation = verdict letters parts url quote) ∨
    ((∀ url quote, Reads line url quote → ¬Cites url quote) ∧ citation.verdict = .unavailable) := by
  cases read : citation_body line with
  | some body =>
    rw [citation_of, read] at is
    obtain rfl := Option.some.inj is
    exact judge_cases read
  | none =>
    rw [citation_of, read] at is
    dsimp only at is
    split at is
    · obtain rfl := Option.some.inj is
      refine Or.inr ⟨fun url quote reads => ?_, rfl⟩
      obtain ⟨_, _, _, also, _⟩ := reads
      rw [read] at also
      cases also
    · cases is

theorem citation_judged {citation : Citation} (is : citation_of letters parts line = some citation) :
    Judged letters parts line citation := by
  rcases citation_cases is with ⟨url, quote, reads, cites, rfl⟩ | ⟨none_, unavailable⟩
  · have cases_ := verdict_cases letters parts url quote
    have occurs {part : ContextPart} {span : Span} (found : find_quote letters quote part.text = some span) :
        Occurs letters quote part.text := find_quote_isSome.mp (found ▸ rfl)
    refine ⟨?_, ?_, ?_, ?_, fun none_ => (none_ url quote reads cites).elim, ?_⟩
    · intro _ _ also _
      obtain ⟨rfl, rfl⟩ := reads.unique also
      rcases cases_ with ⟨is, none_⟩ | ⟨is, part, listed, of_url, span, found, _⟩ | ⟨is, _, none_⟩
      · simp only [is, reduceCtorEq, false_iff]
        exact fun ⟨part, listed, of_url, _⟩ => none_ part listed of_url
      · exact ⟨fun _ => ⟨part, listed, of_url, occurs found⟩, fun _ => is⟩
      · simp only [is, reduceCtorEq, false_iff]
        exact fun ⟨part, listed, of_url, has⟩ => none_ part listed of_url has
    · intro _ _ also _
      obtain ⟨rfl, rfl⟩ := reads.unique also
      rcases cases_ with ⟨is, none_⟩ | ⟨is, part, listed, of_url, span, found, _⟩ | ⟨is, some_, none_⟩
      · simp only [is, reduceCtorEq, false_iff]
        exact fun ⟨⟨part, listed, of_url⟩, _⟩ => none_ part listed of_url
      · simp only [is, reduceCtorEq, false_iff]
        exact fun ⟨_, none_⟩ => none_ part listed of_url (occurs found)
      · exact ⟨fun _ => ⟨some_, none_⟩, fun _ => is⟩
    · intro _ _ also _
      obtain ⟨rfl, rfl⟩ := reads.unique also
      rcases cases_ with ⟨is, none_⟩ | ⟨is, part, listed, of_url, _⟩ | ⟨is, ⟨part, listed, of_url⟩, _⟩
      · exact ⟨fun _ => none_, fun _ => is⟩
      · simp only [is, reduceCtorEq, false_iff]
        exact fun none_ => none_ part listed of_url
      · simp only [is, reduceCtorEq, false_iff]
        exact fun none_ => none_ part listed of_url
    · intro _ _ also _
      obtain ⟨rfl, rfl⟩ := reads.unique also
      exact verdict_named
    · intro supported
      rcases cases_ with ⟨is, _⟩ | ⟨_, part, listed, _, span, found, matched⟩ | ⟨is, _⟩
      · cases is.symm.trans supported
      · exact ⟨part, listed, _, quote, matched, verdict_named.2, rfl, find_quote_excises found⟩
      · cases is.symm.trans supported
  · refine ⟨?_, ?_, ?_, ?_, fun _ => unavailable, ?_⟩
    · exact fun url quote reads cites => (none_ url quote reads cites).elim
    · exact fun url quote reads cites => (none_ url quote reads cites).elim
    · exact fun url quote reads cites => (none_ url quote reads cites).elim
    · exact fun url quote reads cites => (none_ url quote reads cites).elim
    · exact fun supported => by cases unavailable.symm.trans supported

theorem counts_sum (citations : List Citation) : (citations.filter fun c => c.verdict = .supported).length +
    (citations.filter fun c => c.verdict = .contradicted).length + (citations.filter fun c => c.verdict = .uncovered).length +
      (citations.filter fun c => c.verdict = .unavailable).length = citations.length := by
  induction citations with
  | nil => rfl
  | cons c rest ih =>
    simp only [List.filter_cons, List.length_cons]
    cases c.verdict
    all_goals
      simp only [reduceCtorEq, decide_true, decide_false, Bool.false_eq_true, if_true, if_false, List.length_cons]
      omega

theorem mem_splitInclusive {separator c : Char} {text segment : List Char} (listed : segment ∈ splitInclusive separator text)
    (member : c ∈ segment) : c ∈ text := by
  induction text generalizing segment with
  | nil => cases listed
  | cons d rest ih =>
    rw [splitInclusive] at listed
    split at listed
    · rcases List.mem_cons.mp listed with rfl | later
      · exact List.mem_cons.mpr (Or.inl (List.mem_singleton.mp member))
      · exact List.mem_cons_of_mem d (ih later member)
    · split at listed
      · obtain rfl := List.mem_singleton.mp listed
        exact List.mem_cons.mpr (Or.inl (List.mem_singleton.mp member))
      · rename_i first more is
        rw [is] at ih
        rcases List.mem_cons.mp listed with rfl | later
        · rcases List.mem_cons.mp member with rfl | inside
          · exact List.mem_cons_self
          · exact List.mem_cons_of_mem d (ih List.mem_cons_self inside)
        · exact List.mem_cons_of_mem d (ih (List.mem_cons_of_mem first later) member)

theorem mem_lines {c : Char} {text line : List Char} (listed : line ∈ lines text) (member : c ∈ line) : c ∈ text := by
  have shorter {c d : Char} {text line : List Char} (strip : Declarations.strip_suffix d text = some line) (member : c ∈ line) :
      c ∈ text := by
    unfold Declarations.strip_suffix at strip
    split at strip
    · obtain rfl := Option.some.inj strip
      exact List.mem_of_mem_dropLast member
    · cases strip
  obtain ⟨segment, inside, rfl⟩ := List.mem_map.mp listed
  refine mem_splitInclusive inside ?_
  unfold Declarations.unterminated at member
  split at member
  · exact member
  · rename_i bare strip
    cases carriage : Declarations.strip_suffix '\r' bare with
    | none =>
      rw [carriage] at member
      exact shorter strip member
    | some inner =>
      rw [carriage] at member
      exact shorter strip (shorter carriage member)

theorem blank_unnamed {text line : List Char} (blank : trim text = []) (listed : line ∈ lines text) :
    names_a_citation line = false := by
  by_contra named
  obtain ⟨before, after, whole⟩ := names_iff.mp (Bool.not_eq_false _ ▸ named)
  have letter : 'c' ∈ line.map Char.toLower := by
    rw [whole]
    exact List.mem_append_right _ (List.mem_append_left _ (by decide))
  obtain ⟨c, inside, lowered⟩ := List.mem_map.mp letter
  have white := trim_eq_nil.mp blank c (mem_lines listed inside)
  unfold Char.toLower at lowered
  split at lowered
  · rename_i upper
    have bounds : 65 ≤ c.toNat ∧ c.toNat ≤ 90 := by
      simpa [Char.isUpper, UInt32.le_iff_toNat_le] using upper
    simp only [isWhitespace, Bool.or_eq_true, Bool.and_eq_true, decide_eq_true_eq] at white
    omega
  · subst lowered
    revert white
    decide

end

end CommonMeasure.Grounding
