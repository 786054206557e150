import CommonMeasure.Optimise.Matches

namespace CommonMeasure.Optimise

variable {casing : Casing}

def stopOf (ws : List Word) : Nat := (ws.getLast?.map Word.stop).getD 0

theorem stopOf_word (ws : List CommonMeasure.Word) : stopOf (ws.map (word casing)) = endOf 0 ws := by
  rw [stopOf, endOf, List.getLast?_map, Option.map_map]
  rfl

theorem wordsAt_forms (offset : Nat) (text : List Char) :
    (wordsAt offset text).map (fun w => formOf casing w.text) = forms casing text := by
  have same : (wordsAt offset text).map CommonMeasure.Word.text = (words text).map CommonMeasure.Word.text :=
    wordsFrom_texts offset 0 [] text
  have formed := congrArg (List.map (formOf casing)) same
  rw [List.map_map, List.map_map] at formed
  exact formed

theorem phrase_lies {text : List Char} {pre run post : List Word} (whole : textWords casing text = pre ++ run ++ post)
    (some_ : run ≠ []) :
    ∃ gap body, Blank gap ∧ Lies text (stopOf pre) (run.getLast some_).stop (gap ++ body) ∧
      stopOf pre + byteLen gap = (run.head some_).start ∧ Lies text (run.head some_).start (run.getLast some_).stop body ∧
      forms casing (gap ++ body) = run.map Word.form ∧ forms casing body = run.map Word.form := by
  obtain ⟨front, rawPost, both, mapped, rfl⟩ := List.map_eq_append_iff.mp whole
  obtain ⟨rawPre, rawRun, rfl, rfl, rfl⟩ := List.map_eq_append_iff.mp mapped
  have rawSome : rawRun ≠ [] := fun none => some_ (by rw [none]; rfl)
  have laid := words_laid text
  rw [both] at laid
  obtain ⟨before, gap, body, after, rfl, begins, blank, starts, ends, inner⟩ := laid.run rawSome
  rw [Nat.zero_add] at begins
  have head : ((rawRun.map (word casing)).head some_).start = (rawRun.head rawSome).start := by
    rw [List.head_map]
    rfl
  have last : ((rawRun.map (word casing)).getLast some_).stop = endOf 0 (rawPre ++ rawRun) := by
    rw [List.getLast_map, endOf, List.getLast?_append, List.getLast?_eq_some_getLast rawSome]
    rfl
  have formed : forms casing body = (rawRun.map (word casing)).map Word.form := by
    rw [← wordsAt_forms (rawRun.head rawSome).start, inner.words, List.map_map]
    rfl
  rw [head, last, stopOf_word]
  refine ⟨gap, body, blank, ⟨before, after, by simp, begins, by rw [byteLen_append]; omega⟩, starts,
    ⟨before ++ gap, after, by simp, by rw [byteLen_append]; omega, ends⟩, ?_, formed⟩
  rw [← formed, forms, words, wordsAt_gap blank]
  exact wordsAt_forms _ _

theorem textWords_ordered (text : List Char) :
    (∀ w ∈ textWords casing text, w.start < w.stop) ∧ (textWords casing text).Pairwise fun w v => w.stop ≤ v.start := by
  obtain ⟨within, ordered⟩ := (words_laid text).placed
  refine ⟨?_, List.pairwise_map.mpr ordered⟩
  intro w listed
  obtain ⟨raw, inside, rfl⟩ := List.mem_map.mp listed
  exact (within raw inside).2.1

theorem stop_le_stopOf {text : List Char} {done rest : List Word} (whole : textWords casing text = done ++ rest) {w : Word}
    (listed : w ∈ done) : w.stop ≤ stopOf done := by
  obtain ⟨sized, ordered⟩ := @textWords_ordered casing text
  rw [whole] at sized ordered
  cases done using List.reverseRecOn with
  | nil => cases listed
  | append_singleton done last =>
    have ends : stopOf (done ++ [last]) = last.stop := by simp [stopOf]
    rw [ends]
    rcases List.mem_append.mp listed with inside | same
    · rw [List.append_assoc, List.pairwise_append] at ordered
      have := ordered.2.2 w inside last (by simp)
      have := sized last (by simp)
      omega
    · rw [List.mem_singleton.mp same]

theorem stopOf_le_start {text : List Char} {done rest : List Word} (whole : textWords casing text = done ++ rest) {w : Word}
    (listed : w ∈ rest) : stopOf done ≤ w.start := by
  have ordered := (@textWords_ordered casing text).2
  rw [whole, List.pairwise_append] at ordered
  cases done using List.reverseRecOn with
  | nil => exact Nat.zero_le _
  | append_singleton done last =>
    have ends : stopOf (done ++ [last]) = last.stop := by simp [stopOf]
    rw [ends]
    exact ordered.2.2 last (by simp) w listed

structure Past where
  source : Source
  spans : List RemovedSpan

def keptWord (source : Nat) (w : Word) : KeptWord := ⟨w.form, source, w.start, w.stop⟩

def Stretch (casing : Casing) (past : List Past) (limit : Nat) (held : List KeptWord) (start stop i b : Nat) : Prop :=
  stop ≤ held.length ∧ ∃ p block pre run post, past[i]? = some p ∧ (blocks p.source.text)[b]? = some block ∧
    textWords casing p.source.text = pre ++ run ++ post ∧ (∀ w ∈ run, block.start ≤ w.start ∧ w.stop ≤ block.stop) ∧
    (∀ span ∈ p.spans, (∀ w ∈ run, w.stop ≤ span.start) ∨ ∀ w ∈ run, span.stop ≤ w.start) ∧
    (held.take stop).drop start = run.map (keptWord i) ∧ (i + 1 = past.length → ∀ w ∈ run, w.stop ≤ limit)

section

variable {past : List Past} {limit further start stop i b : Nat} {held more : List KeptWord}

theorem Stretch.push (stretch : Stretch casing past limit held start stop i b) (later : limit ≤ further) :
    Stretch casing past further (held ++ more) start stop i b := by
  obtain ⟨within, p, block, pre, run, post, found, place, whole, inside, apart, same, behind⟩ := stretch
  refine ⟨by rw [List.length_append]; omega, p, block, pre, run, post, found, place, whole, inside, apart, ?_, ?_⟩
  · rw [List.take_append_of_le_length within]
    exact same
  · exact fun last w listed => Nat.le_trans (behind last w listed) later

theorem Stretch.from_ (stretch : Stretch casing past limit held start stop i b) {place : Nat} (later : start ≤ place) :
    Stretch casing past limit held place stop i b := by
  obtain ⟨within, p, block, pre, run, post, found, placed, whole, inside, apart, same, behind⟩ := stretch
  refine ⟨within, p, block, pre ++ run.take (place - start), run.drop (place - start), post, found, placed, ?_, ?_, ?_, ?_, ?_⟩
  · rw [whole, List.append_assoc pre (run.take _), List.take_append_drop]
  · exact fun w listed => inside w (List.mem_of_mem_drop listed)
  · intro span removed
    rcases apart span removed with before | after
    · exact .inl fun w listed => before w (List.mem_of_mem_drop listed)
    · exact .inr fun w listed => after w (List.mem_of_mem_drop listed)
  · rw [List.map_drop, ← same, List.drop_drop, Nat.add_sub_cancel' later]
  · exact fun last w listed => behind last w (List.mem_of_mem_drop listed)

theorem Stretch.removed {source : Source} {spans : List RemovedSpan} {span : RemovedSpan}
    (stretch : Stretch casing (past ++ [⟨source, spans⟩]) limit held start stop i b) (after : limit ≤ span.start)
    (later : limit ≤ further) : Stretch casing (past ++ [⟨source, spans ++ [span]⟩]) further held start stop i b := by
  obtain ⟨within, p, block, pre, run, post, found, place, whole, inside, apart, same, behind⟩ := stretch
  by_cases last : i = past.length
  · subst last
    obtain rfl : ⟨source, spans⟩ = p := by simpa using found
    refine ⟨within, ⟨source, spans ++ [span]⟩, block, pre, run, post, by simp, place, whole, inside, ?_, same, ?_⟩
    · intro other removed
      rcases List.mem_append.mp removed with removed | removed
      · exact apart other removed
      · rw [List.mem_singleton.mp removed]
        exact .inl fun w listed => Nat.le_trans (behind (by simp) w listed) after
    · exact fun _ w listed => Nat.le_trans (behind (by simp) w listed) later
  · refine ⟨within, p, block, pre, run, post, ?_, place, whole, inside, apart, same, ?_⟩
    · have bounded := (List.getElem?_eq_some_iff.mp found).1
      rw [List.length_append, List.length_singleton] at bounded
      rw [List.getElem?_append_left (by omega)] at found ⊢
      exact found
    · intro is
      rw [List.length_append, List.length_singleton] at is
      omega

theorem Stretch.next {p : Past} (stretch : Stretch casing past limit held start stop i b) :
    Stretch casing (past ++ [p]) further held start stop i b := by
  obtain ⟨within, q, block, pre, run, post, found, place, whole, inside, apart, same, _⟩ := stretch
  have bounded := (List.getElem?_eq_some_iff.mp found).1
  refine ⟨within, q, block, pre, run, post, ?_, place, whole, inside, apart, same, ?_⟩
  · rw [List.getElem?_append_left bounded]
    exact found
  · intro is
    rw [List.length_append, List.length_singleton] at is
    omega

end

end CommonMeasure.Optimise
