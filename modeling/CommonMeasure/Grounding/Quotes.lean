import CommonMeasure.Integrity.Claims

namespace CommonMeasure.Grounding

open Integrity (Letters Span)
open Integrity.Fidelity (same_word trimmed_word)

def windows (count : Nat) (ws : List Word) : List (List Word) := (ws.tails.map (·.take count)).filter (·.length = count)

def alike (letters : Letters) (run needle : List Word) : Bool :=
  (run.zip needle).all fun (word, wanted) => same_word letters word.text wanted.text

def stretch (run : List Word) : Span := ⟨(run.head?.map Word.start).getD 0, (run.getLast?.map Word.stop).getD 0⟩

def find_quote (letters : Letters) (quote text : List Char) : Option Span :=
  let needle := words quote
  if needle = [] then none else ((windows needle.length (words text)).find? fun run => alike letters run needle).map stretch

def span_excises_to_quote (letters : Letters) (text : List Char) (span : Span) (quote : List Char) : Bool :=
  match slice text span.start span.stop with
  | none => false
  | some excised =>
    let quoted := words quote
    quoted ≠ [] && (words excised).length = quoted.length && alike letters (words excised) quoted

def Occurs (letters : Letters) (quote text : List Char) : Prop :=
  words quote ≠ [] ∧ ∃ before run after, words text = before ++ run ++ after ∧
    List.Forall₂ (fun word wanted => same_word letters word.text wanted.text = true) run (words quote)

section

variable {letters : Letters} {quote text : List Char} {run needle : List Word}

theorem mem_windows {count : Nat} {ws : List Word} :
    run ∈ windows count ws ↔ run.length = count ∧ ∃ before after, ws = before ++ run ++ after := by
  unfold windows
  simp only [List.mem_filter, List.mem_map, List.mem_tails, decide_eq_true_eq]
  constructor
  · rintro ⟨⟨rest, ⟨before, rfl⟩, rfl⟩, length⟩
    exact ⟨length, before, rest.drop count, by rw [List.append_assoc, List.take_append_drop]⟩
  · rintro ⟨length, before, after, rfl⟩
    refine ⟨⟨run ++ after, ⟨before, by simp⟩, ?_⟩, length⟩
    rw [← length, List.take_left]

theorem alike_iff (length : run.length = needle.length) : alike letters run needle = true ↔
    List.Forall₂ (fun word wanted => same_word letters word.text wanted.text = true) run needle := by
  rw [List.forall₂_iff_zip]
  simp [alike, length]

theorem find_quote_some {span : Span} (found : find_quote letters quote text = some span) :
    words quote ≠ [] ∧ ∃ before run after, words text = before ++ run ++ after ∧ span = stretch run ∧
      List.Forall₂ (fun word wanted => same_word letters word.text wanted.text = true) run (words quote) := by
  rw [find_quote] at found
  split at found
  · cases found
  · rename_i some_
    obtain ⟨run, first, rfl⟩ := Option.map_eq_some_iff.mp found
    obtain ⟨length, before, after, split⟩ := mem_windows.mp (List.mem_of_find?_eq_some first)
    have held : alike letters run (words quote) = true := by simpa using List.find?_some first
    exact ⟨some_, before, run, after, split, rfl, (alike_iff length).mp held⟩

theorem find_quote_isSome : (find_quote letters quote text).isSome = true ↔ Occurs letters quote text := by
  constructor
  · intro found
    obtain ⟨span, found⟩ := Option.isSome_iff_exists.mp found
    obtain ⟨some_, before, run, after, split, _, same⟩ := find_quote_some found
    exact ⟨some_, before, run, after, split, same⟩
  · rintro ⟨some_, before, run, after, split, same⟩
    have length := same.length_eq
    rw [find_quote, if_neg some_, Option.isSome_map, List.find?_isSome]
    exact ⟨run, mem_windows.mpr ⟨length, before, after, split⟩, (alike_iff length).mpr same⟩

theorem stretch_lies {before after : List Word} (split : words text = before ++ run ++ after) (some_ : run ≠ []) :
    ∃ part, Lies text (stretch run).start (stretch run).stop part ∧ (words part).map Word.text = run.map Word.text := by
  have laid : Laid 0 text (before ++ run ++ after) := split ▸ words_laid text
  obtain ⟨front, gap, body, back, rfl, begins, _, opens, ends, inner⟩ := laid.run some_
  have start : (stretch run).start = (run.head some_).start := by
    rw [stretch, List.head?_eq_some_head some_]
    rfl
  have stop : (stretch run).stop = endOf 0 (before ++ run) := by
    rw [stretch, endOf, List.getLast?_append, List.getLast?_eq_some_getLast some_]
    rfl
  refine ⟨body, ⟨front ++ gap, back, rfl, ?_, ?_⟩, ?_⟩
  · rw [start, byteLen_append]
    omega
  · rw [start, stop, ends]
  · rw [← inner.words]
    exact wordsFrom_texts 0 _ [] body

theorem forall₂_texts {R : List Char → List Char → Prop} {others : List Word}
    (same : List.Forall₂ (fun word wanted => R word.text wanted.text) run needle)
    (texts : others.map Word.text = run.map Word.text) : List.Forall₂ (fun word wanted => R word.text wanted.text) others needle := by
  have mapped : List.Forall₂ R (run.map Word.text) (needle.map Word.text) := by
    rwa [List.forall₂_map_left_iff, List.forall₂_map_right_iff]
  rwa [← texts, List.forall₂_map_left_iff, List.forall₂_map_right_iff] at mapped

theorem find_quote_excises {span : Span} (found : find_quote letters quote text = some span) :
    span_excises_to_quote letters text span quote = true := by
  obtain ⟨some_, before, run, after, split, rfl, same⟩ := find_quote_some found
  have run_some : run ≠ [] := by
    rintro rfl
    exact some_ (List.eq_nil_of_length_eq_zero same.length_eq.symm)
  obtain ⟨part, lies, texts⟩ := stretch_lies split run_some
  have alone := forall₂_texts (R := fun word wanted => same_word letters word wanted = true) same texts
  rw [span_excises_to_quote, slice_iff.mpr lies]
  simp only [Bool.and_eq_true, decide_eq_true_eq]
  exact ⟨⟨some_, alone.length_eq⟩, (alike_iff alone.length_eq).mpr alone⟩

theorem occurs_own {before run after : List Word} (split : words text = before ++ run ++ after) (some_ : run ≠ [])
    (texts : (words quote).map Word.text = run.map Word.text) : Occurs letters quote text := by
  have quoted : words quote ≠ [] := by
    intro none_
    rw [none_, List.map_nil] at texts
    exact some_ (List.map_eq_nil_iff.mp texts.symm)
  have same : List.Forall₂ (fun word wanted : Word => same_word letters word.text wanted.text = true) run run :=
    List.forall₂_same.mpr fun word _ => by simp [same_word]
  refine ⟨quoted, before, run, after, split, ?_⟩
  have mapped : List.Forall₂ (fun a b => same_word letters a b = true) (run.map Word.text) (run.map Word.text) := by
    rwa [List.forall₂_map_left_iff, List.forall₂_map_right_iff]
  rw [← texts, List.forall₂_map_right_iff] at mapped
  rwa [texts, List.forall₂_map_left_iff] at mapped

end

end CommonMeasure.Grounding
