import CommonMeasure.Optimise.Stretches

namespace CommonMeasure.Optimise

structure Antecedent (casing : Casing) (past : List Past) (j : Nat) (span : RemovedSpan) (i b ob : Nat) (p q : Past)
    (block own : Block) (part gap phrase : List Char) : Prop where
  source : past[i]? = some p
  own_source : past[j]? = some q
  closed : (blocks p.source.text)[b]? = some block
  reading : (blocks q.source.text)[ob]? = some own
  earlier : i < j ∨ i = j ∧ b < ob
  reference : p.source.envelope.source_url = span.first_kept.reference
  starts : block.start ≤ span.first_kept.start
  stops : span.first_kept.stop ≤ block.stop
  own_starts : own.start ≤ span.start + byteLen gap
  own_stops : span.stop ≤ own.stop
  blank : Blank gap
  apart : ∀ other ∈ p.spans, other.stop ≤ span.first_kept.start ∨ span.first_kept.stop ≤ other.start
  held : Lies p.source.text span.first_kept.start span.first_kept.stop part
  removed : Lies q.source.text span.start span.stop (gap ++ phrase)
  counted : span.words = (forms casing (gap ++ phrase)).length

def Recorded (casing : Casing) (past : List Past) (limit j : Nat) (span : RemovedSpan) (very : Prop) : Prop :=
  ∃ i b ob p q block own part gap phrase, Antecedent casing past j span i b ob p q block own part gap phrase ∧
    (forms casing part = forms casing (gap ++ phrase) ↔ very) ∧ (i + 1 = past.length → span.first_kept.stop ≤ limit)

def Parts (text : List Char) (place : Nat) : Prop := ∃ a b, text = a ++ b ∧ byteLen a = place ∧ (a = [] ∨ Breaks b)

structure Excised (text : List Char) (spans : List RemovedSpan) : Prop where
  ordered : spans.Pairwise fun a b => a.stop ≤ b.start
  lies : ∀ span ∈ spans, ∃ part, Lies text span.start span.stop part
  parts : ∀ span ∈ spans, Parts text span.start ∧ Parts text span.stop

section

variable {casing : Casing} {past : List Past} {limit further j : Nat} {span : RemovedSpan} {very : Prop}

theorem Recorded.iff {other : Prop} (recorded : Recorded casing past limit j span very) (same : very ↔ other) :
    Recorded casing past limit j span other := by
  obtain ⟨i, b, ob, p, q, block, own, part, gap, phrase, antecedent, holds, behind⟩ := recorded
  exact ⟨i, b, ob, p, q, block, own, part, gap, phrase, antecedent, holds.trans same, behind⟩

theorem Recorded.later (recorded : Recorded casing past limit j span very) (later : limit ≤ further) :
    Recorded casing past further j span very := by
  obtain ⟨i, b, ob, p, q, block, own, part, gap, phrase, antecedent, same, behind⟩ := recorded
  exact ⟨i, b, ob, p, q, block, own, part, gap, phrase, antecedent, same, fun last => Nat.le_trans (behind last) later⟩

theorem getElem?_before {p q : Past} {i : Nat} (found : (past ++ [p])[i]? = some q) (other : i ≠ past.length) :
    ∀ r, (past ++ [r])[i]? = some q := by
  intro r
  have bounded := (List.getElem?_eq_some_iff.mp found).1
  rw [List.length_append, List.length_singleton] at bounded
  rw [List.getElem?_append_left (by omega)] at found ⊢
  exact found

theorem Recorded.removed {source : Source} {spans : List RemovedSpan} {new : RemovedSpan}
    (recorded : Recorded casing (past ++ [⟨source, spans⟩]) limit j span very) (after : limit ≤ new.start)
    (later : limit ≤ further) : Recorded casing (past ++ [⟨source, spans ++ [new]⟩]) further j span very := by
  obtain ⟨i, b, ob, p, q, block, own, part, gap, phrase, antecedent, same, behind⟩ := recorded
  have lengths : (past ++ [Past.mk source spans]).length = past.length + 1 := by simp
  -- The source a place is in keeps its text, and may have one more span.
  have again {k : Nat} {r : Past} (found : (past ++ [Past.mk source spans])[k]? = some r) :
      ∃ s : Past, (past ++ [Past.mk source (spans ++ [new])])[k]? = some s ∧ s.source = r.source ∧
        ∀ other ∈ s.spans, other ∈ r.spans ∨ k = past.length ∧ other = new := by
    by_cases last : k = past.length
    · subst last
      obtain rfl : Past.mk source spans = r := by simpa using found
      refine ⟨⟨source, spans ++ [new]⟩, by simp, rfl, ?_⟩
      intro other listed
      rcases List.mem_append.mp listed with listed | listed
      · exact .inl listed
      · exact .inr ⟨rfl, List.mem_singleton.mp listed⟩
    · exact ⟨r, getElem?_before found last _, rfl, fun _ listed => .inl listed⟩
  obtain ⟨p', found, samep, spansp⟩ := again antecedent.source
  obtain ⟨q', ownFound, sameq, _⟩ := again antecedent.own_source
  refine ⟨i, b, ob, p', q', block, own, part, gap, phrase, ?_, same, ?_⟩
  · refine { antecedent with
      source := found, own_source := ownFound, closed := samep ▸ antecedent.closed, reading := sameq ▸ antecedent.reading,
      reference := samep ▸ antecedent.reference, apart := ?_, held := samep ▸ antecedent.held,
      removed := sameq ▸ antecedent.removed }
    intro other listed
    rcases spansp other listed with old | ⟨rfl, rfl⟩
    · exact antecedent.apart other old
    · exact .inr (Nat.le_trans (behind lengths.symm) after)
  · intro last
    rw [List.length_append, List.length_singleton] at last
    exact Nat.le_trans (behind (by rw [lengths]; exact last)) later

theorem Recorded.next {p : Past} (recorded : Recorded casing past limit j span very) :
    Recorded casing (past ++ [p]) further j span very := by
  obtain ⟨i, b, ob, q, r, block, own, part, gap, phrase, antecedent, same, _⟩ := recorded
  have bounded := (List.getElem?_eq_some_iff.mp antecedent.source).1
  have ownBounded := (List.getElem?_eq_some_iff.mp antecedent.own_source).1
  refine ⟨i, b, ob, q, r, block, own, part, gap, phrase, { antecedent with source := ?_, own_source := ?_ }, same, ?_⟩
  · rw [List.getElem?_append_left bounded]
    exact antecedent.source
  · rw [List.getElem?_append_left ownBounded]
    exact antecedent.own_source
  · intro is
    rw [List.length_append, List.length_singleton] at is
    omega

end

def Indexed (casing : Casing) (past : List Past) (bn limit : Nat) (context : KeptContext) : Prop :=
  ∀ key occurrences, context.index.lookup key = some occurrences → ∀ occurrence ∈ occurrences,
    occurrence.place + MINIMUM_PHRASE_WORDS ≤ occurrence.stretch_end ∧ key = context.ngram_key occurrence.place ∧
    ∃ i b, Stretch casing past limit context.words occurrence.place occurrence.stretch_end i b ∧
      (i + 1 < past.length ∨ i + 1 = past.length ∧ b < bn)

section

variable {casing : Casing} {past : List Past} {bn limit further : Nat} {context other : KeptContext}

theorem phrase_push {place stop : Nat} {held more : List KeptWord} (inside : place + MINIMUM_PHRASE_WORDS ≤ stop)
    (within : stop ≤ held.length) :
    ((held ++ more).drop place).take MINIMUM_PHRASE_WORDS = (held.drop place).take MINIMUM_PHRASE_WORDS := by
  rw [List.drop_append_of_le_length (by omega), List.take_append_of_le_length (by rw [List.length_drop]; omega)]

theorem Indexed.push {more : List KeptWord} (indexed : Indexed casing past bn limit context) (later : limit ≤ further)
    (same : other.index = context.index) (grown : other.words = context.words ++ more) :
    Indexed casing past bn further other := by
  intro key occurrences found occurrence listed
  obtain ⟨inside, is, i, b, stretch, earlier⟩ := indexed key occurrences (same ▸ found) occurrence listed
  refine ⟨inside, ?_, i, b, grown ▸ stretch.push later, earlier⟩
  rw [KeptContext.ngram_key, grown, phrase_push inside stretch.1]
  exact is

theorem Indexed.map {past' : List Past} {bn' : Nat} (indexed : Indexed casing past bn limit context)
    (same : other.index = context.index) (held : other.words = context.words)
    (moved : ∀ start stop i b, Stretch casing past limit context.words start stop i b →
      i + 1 < past.length ∨ i + 1 = past.length ∧ b < bn →
      Stretch casing past' further context.words start stop i b ∧ (i + 1 < past'.length ∨ i + 1 = past'.length ∧ b < bn')) :
    Indexed casing past' bn' further other := by
  intro key occurrences found occurrence listed
  obtain ⟨inside, is, i, b, stretch, earlier⟩ := indexed key occurrences (same ▸ found) occurrence listed
  obtain ⟨stretched, earlier⟩ := moved _ _ _ _ stretch earlier
  exact ⟨inside, by rw [is, KeptContext.ngram_key, KeptContext.ngram_key, held], i, b, held ▸ stretched, earlier⟩

theorem Indexed.stretch {start stop i b : Nat} (indexed : Indexed casing past bn limit context)
    (stretch : Stretch casing past limit context.words start stop i b)
    (earlier : i + 1 < past.length ∨ i + 1 = past.length ∧ b < bn) :
    Indexed casing past bn limit (context.indexed (start, stop)) := by
  have folded : Indexed casing past bn limit (context.indexed (start, stop)) ∧
      (context.indexed (start, stop)).words = context.words := by
    refine ⟨?_, rfl⟩
    rw [KeptContext.indexed]
    refine List.foldlRecOn (motive := fun index => Indexed casing past bn limit { context with index := index }) _ _ indexed ?_
    intro index before place listed key occurrences found occurrence inside
    obtain ⟨k, bounded, rfl⟩ := List.mem_range'.mp listed
    dsimp only at bounded
    by_cases same : key = context.ngram_key (start + 1 * k)
    · subst same
      rw [AList.lookup_insert] at found
      obtain rfl := Option.some_inj.mp found
      rcases List.mem_append.mp inside with old | new
      · cases known : index.lookup (context.ngram_key (start + 1 * k)) with
        | none =>
          rw [known] at old
          cases old
        | some occurrences =>
          rw [known] at old
          exact before _ occurrences known occurrence old
      · obtain rfl := List.mem_singleton.mp new
        refine ⟨?_, rfl, i, b, stretch.from_ (Nat.le_add_right _ _), earlier⟩
        dsimp only
        omega
    · rw [AList.lookup_insert_ne same] at found
      exact before key occurrences found occurrence inside
  exact folded.1

end

end CommonMeasure.Optimise
