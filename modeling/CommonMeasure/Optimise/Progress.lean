import CommonMeasure.Optimise.Removals
import CommonMeasure.Foundation.Runs

/-!
# Reading a source

Each word read is kept or begins a removal, and both keep what the record rests on.
-/

namespace CommonMeasure.Optimise

def AlongWords (digest : List Char → String) (asked : KeptContext → List Word → Prop) (matcher : Matcher) (text : List Char)
    (reference : Nat → String) (source : Nat) : Nat → List Word → Reading → Prop
  | turns + 1, word :: rest, reading =>
    let next := readWord digest matcher text reference source word rest reading
    asked reading.context (word :: rest) ∧ AlongWords digest asked matcher text reference source turns next.1 next.2
  | _, _, _ => True

def AlongBlock (casing : Casing) (digest : List Char → String) (asked : KeptContext → List Word → Prop) (matcher : Matcher)
    (text : List Char) (reference : Nat → String) (source : Nat) (reading : Reading) (block : Block) : Prop :=
  AlongWords digest asked matcher text reference source (blockWords casing text block).length (blockWords casing text block)
    { reading with context := reading.context.open_block }

def AlongSource (casing : Casing) (digest : List Char → String) (asked : KeptContext → List Word → Prop) (matcher : Matcher)
    (state : State) (source : Source) : Prop :=
  (state.seen_sources.find? fun seen => seen.1 = canonical casing source.text) = none →
    AlongRun (readBlock casing digest matcher source.text (state.reference source.envelope) state.kept.length)
      (AlongBlock casing digest asked matcher source.text (state.reference source.envelope) state.kept.length)
      ⟨state.context, 0, []⟩ (blocks source.text)

/-- The matcher's matches are drawn from the index, where strict are of the very phrase, and are of another one where
what is asked of each look does not hold. -/
structure Takes (strict : Prop) (asked : KeptContext → List Word → Prop) (matcher : Matcher) : Prop where
  none : ∀ context words, matcher context words = none → asked context words
  some_ : ∀ context words antecedent length, matcher context words = some (antecedent, length) →
    Drawn context words antecedent length ∧ (strict → context.phrase antecedent = phraseOf words) ∧
      (asked context words ∨ context.phrase antecedent ≠ phraseOf words)

def Clear (context : KeptContext) (words : List Word) : Prop := context.longest_match words = context.exact_match words

theorem takes_longest : Takes False Clear KeptContext.longest_match where
  none _ _ nothing := nothing.trans (longest_match_none nothing).symm
  some_ context words antecedent _ found := by
    refine ⟨longest_match_draws _ _ _ _ found, False.elim, ?_⟩
    rw [Clear, longest_match_exact found]
    exact Decidable.em _

theorem takes_exact : Takes True (fun _ _ => True) KeptContext.exact_match := by
  refine ⟨fun _ _ _ => trivial, ?_⟩
  intro context words antecedent length found
  rw [KeptContext.exact_match] at found
  split at found
  · cases found
  rename_i enough
  split at found
  · cases found
  rename_i occurrences listed
  obtain ⟨before, occurrence, after, parts, rfl, rfl, _, _⟩ := furthest_spec found
  have kept : occurrence ∈ occurrences.filter fun occurrence => context.phrase occurrence.place = phraseOf words := by
    simp [parts]
  obtain ⟨inside, very⟩ := List.mem_filter.mp kept
  exact ⟨⟨Nat.le_of_not_lt enough, occurrences, occurrence, listed, inside, rfl, rfl⟩, fun _ => of_decide_eq_true very,
    .inl trivial⟩

def now (before : List Past) (source : Source) (reading : Reading) : List Past := before ++ [⟨source, reading.removed_spans⟩]

/-- What reading a source has come to, some of its words done and `bn` of its blocks closed. -/
structure Progress (casing : Casing) (strict agreed : Prop) (before : List Past) (source : Source) (bn : Nat)
    (done rest : List Word)
    (reading : Reading) : Prop where
  whole : textWords casing source.text = done ++ rest
  previous : reading.previous_end = stopOf done
  excised : Excised source.text reading.removed_spans
  behind : ∀ span ∈ reading.removed_spans, span.stop ≤ reading.previous_end
  recorded : ∀ span ∈ reading.removed_spans, ∃ very, (strict → very) ∧
    Recorded casing (now before source reading) reading.previous_end before.length span very
  indexed : Indexed casing (now before source reading) bn reading.previous_end reading.context
  agreed : agreed ∨ ∃ span ∈ reading.removed_spans,
    Recorded casing (now before source reading) reading.previous_end before.length span False

/-- A block is being read: the stretch begun last goes on to its last word done, and the others of it wait. -/
structure Opened (casing : Casing) (before : List Past) (source : Source) (bn : Nat) (block : Block) (done : List Word)
    (reading : Reading) : Prop where
  here : (blocks source.text)[bn]? = some block
  pending : ∀ stretch ∈ reading.context.pending,
    Stretch casing (now before source reading) reading.previous_end reading.context.words stretch.1 stretch.2 before.length bn
  stretch : ∃ start pre run, reading.context.stretch_start = some start ∧ start ≤ reading.context.words.length ∧
    done = pre ++ run ∧ reading.context.words.drop start = run.map (keptWord before.length) ∧
    (∀ w ∈ run, block.start ≤ w.start ∧ w.stop ≤ block.stop) ∧
    ∀ span ∈ reading.removed_spans, ∀ w ∈ run, span.stop ≤ w.start

section

variable {casing : Casing} (digest : List Char → String) {strict agreed : Prop} {before : List Past} {source : Source} {bn : Nat}
  {block : Block} {done rest : List Word} {reading : Reading} {w : Word}

theorem Progress.agree {other : Prop} (progress : Progress casing strict agreed before source bn done rest reading)
    (weaker : agreed → other) : Progress casing strict other before source bn done rest reading :=
  { progress with agreed := progress.agreed.imp_left weaker }

theorem parts_stopOf {text : List Char} (whole : textWords casing text = done ++ rest) : Parts text (stopOf done) := by
  obtain ⟨rawDone, rawRest, both, rfl, rfl⟩ := List.map_eq_append_iff.mp whole
  have laid := words_laid text
  rw [both] at laid
  obtain ⟨a, b, rfl, _, ends, _, breaks⟩ := laid.split
  rw [stopOf_word]
  refine ⟨a, b, rfl, by omega, ?_⟩
  cases rawDone with
  | nil =>
    refine .inl ?_
    by_contra some_
    have := byteLen_pos some_
    rw [endOf_nil] at ends
    omega
  | cons w rest => exact .inr (breaks (List.cons_ne_nil w rest))

theorem stopOf_snoc (done : List Word) (w : Word) : stopOf (done ++ [w]) = w.stop := by
  simp [stopOf]

theorem Opened.closes (progress : Progress casing strict agreed before source bn done rest reading)
    (opened : Opened casing before source bn block done reading) :
    ∃ start, reading.context.stretch_start = some start ∧
      Stretch casing (now before source reading) reading.previous_end reading.context.words start
        reading.context.words.length before.length bn := by
  obtain ⟨start, pre, run, is, within, rfl, same, inside, apart⟩ := opened.stretch
  refine ⟨start, is, Nat.le_refl _, ⟨source, reading.removed_spans⟩, block, pre, run, rest, by simp [now], opened.here,
    progress.whole, inside, fun span removed => .inr (apart span removed), ?_, ?_⟩
  · rw [List.take_length, same]
  · intro _ w listed
    rw [progress.previous]
    exact stop_le_stopOf progress.whole (List.mem_append_right pre listed)

theorem Progress.kept (progress : Progress casing strict agreed before source bn done (w :: rest) reading)
    (opened : Opened casing before source bn block done reading) (starts : block.start ≤ w.start) (stops : w.stop ≤ block.stop) :
    Progress casing strict agreed before source bn (done ++ [w]) rest (reading.kept before.length w) ∧
      Opened casing before source bn block (done ++ [w]) (reading.kept before.length w) := by
  have ahead : reading.previous_end ≤ w.start := by
    rw [progress.previous]
    exact stopOf_le_start progress.whole List.mem_cons_self
  have sized : w.start < w.stop := (textWords_ordered source.text).1 w (by rw [progress.whole]; simp)
  have later : reading.previous_end ≤ w.stop := by omega
  constructor
  · refine ⟨by rw [progress.whole]; simp, (stopOf_snoc done w).symm, progress.excised, ?_, ?_, ?_, ?_⟩
    · exact fun span removed => Nat.le_trans (progress.behind span removed) later
    · intro span removed
      obtain ⟨very, holds, recorded⟩ := progress.recorded span removed
      exact ⟨very, holds, recorded.later later⟩
    · exact progress.indexed.push later rfl rfl
    · refine progress.agreed.imp_right ?_
      rintro ⟨span, removed, recorded⟩
      exact ⟨span, removed, recorded.later later⟩
  · obtain ⟨start, pre, run, is, within, rfl, same, inside, apart⟩ := opened.stretch
    refine ⟨opened.here, fun stretch waits => (opened.pending stretch waits).push later,
      start, pre, run ++ [w], is, ?_, by simp, ?_, ?_, ?_⟩
    · show start ≤ (reading.context.words ++ _).length
      rw [List.length_append]
      omega
    · show (reading.context.words ++ _).drop start = _
      rw [List.drop_append_of_le_length within, same, List.map_append]
      rfl
    · intro v listed
      rcases List.mem_append.mp listed with listed | listed
      · exact inside v listed
      · rw [List.mem_singleton.mp listed]
        exact ⟨starts, stops⟩
    · intro span removed v listed
      rcases List.mem_append.mp listed with listed | listed
      · exact apart span removed v listed
      · rw [List.mem_singleton.mp listed]
        exact Nat.le_trans (progress.behind span removed) ahead

theorem kept_at {held : List KeptWord} {sub : List Word} {a length i k : Nat}
    (same : (held.drop a).take length = sub.map (keptWord i)) (inside : k < length) :
    held[a + k]? = sub[k]?.map (keptWord i) := by
  have at_ := congrArg (fun words => words[k]?) same
  simp only [List.getElem?_take_of_lt inside, List.getElem?_drop, List.getElem?_map] at at_
  exact at_

theorem Progress.antecedent {words later : List Word} {antecedent length : Nat} {reference : Nat → String}
    (progress : Progress casing strict agreed before source bn done (words ++ later) reading)
    (here : (blocks source.text)[bn]? = some block) (inside : ∀ w ∈ words, block.start ≤ w.start ∧ w.stop ≤ block.stop)
    (drawn : Drawn reading.context words antecedent length)
    (named : ∀ i p, (now before source reading)[i]? = some p → reference i = p.source.envelope.source_url) :
    ∃ span, reading.removed digest source.text reference words antecedent length =
        ⟨reading.context.interrupt, stopOf (done ++ words.take length), reading.removed_spans ++ [span]⟩ ∧
      span.start = reading.previous_end ∧ span.stop = stopOf (done ++ words.take length) ∧
      Recorded casing (now before source reading) reading.previous_end before.length span
        (reading.context.phrase antecedent = phraseOf words) := by
  obtain ⟨four, fits⟩ := drawn.reaches
  obtain ⟨occurrences, occurrence, found, listed, rfl, rfl⟩ := drawn.source
  obtain ⟨starts, _, i, b, ⟨within, p, closed, pre, run, post, at_, place, whole, held, apart, same, limit⟩, earlier⟩ :=
    progress.indexed _ _ found _ listed
  obtain ⟨ends, very⟩ := @reach_alike _ words _ starts within
  generalize reach : reading.context.reach occurrence words = length at *
  have positive : 0 < length := Nat.lt_of_lt_of_le (by decide) four
  -- The phrase removed.
  have taken : words.take length ≠ [] := by
    intro none
    have := congrArg List.length none
    rw [List.length_take, List.length_nil] at this
    omega
  have spelled : textWords casing source.text = done ++ words.take length ++ (words.drop length ++ later) := by
    rw [progress.whole, List.append_assoc, ← List.append_assoc (words.take length), List.take_append_drop]
  obtain ⟨gap, phrase, blank, lies, gapped, _, formed, _⟩ := phrase_lies spelled taken
  have last : (words.take length).getLast taken = words[length - 1] := by
    rw [List.getLast_eq_getElem, List.getElem_take]
    simp only [List.length_take, Nat.min_eq_left fits]
  have stop : stopOf (done ++ words.take length) = ((words.take length).getLast taken).stop := by
    rw [stopOf, List.getLast?_append, List.getLast?_eq_some_getLast taken]
    rfl
  -- The words it is matched with.
  have covers : length ≤ run.length := by
    have := congrArg List.length same
    rw [List.length_drop, List.length_take, List.length_map] at this
    omega
  have sub : run.take length ≠ [] := by
    intro none
    have := congrArg List.length none
    rw [List.length_take, List.length_nil] at this
    omega
  have split : textWords casing p.source.text = pre ++ run.take length ++ (run.drop length ++ post) := by
    rw [whole, List.append_assoc pre (run.take length), ← List.append_assoc (run.take length), List.take_append_drop,
      List.append_assoc]
  obtain ⟨_, part, _, _, _, held_, _, partFormed⟩ := phrase_lies split sub
  have matched : (reading.context.words.drop occurrence.place).take length = (run.take length).map (keptWord i) := by
    rw [List.map_take, ← same, List.drop_take, List.take_take, Nat.min_eq_left (by omega)]
  have head : (run.take length).head sub ∈ run := List.mem_of_mem_take (List.head_mem sub)
  have tail : (run.take length).getLast sub ∈ run := List.mem_of_mem_take (List.getLast_mem sub)
  have first : reading.context.words[occurrence.place]? = some (keptWord i ((run.take length).head sub)) := by
    have zero := kept_at matched positive
    rw [Nat.add_zero, ← List.head?_eq_getElem?, List.head?_eq_some_head sub] at zero
    exact zero
  have final : reading.context.words[occurrence.place + length - 1]? = some (keptWord i ((run.take length).getLast sub)) := by
    have at_last := kept_at matched (show length - 1 < length by omega)
    rw [← Nat.add_sub_assoc positive] at at_last
    rw [at_last, List.getLast_eq_getElem, List.getElem?_eq_getElem (by rw [List.length_take]; omega)]
    simp only [List.length_take, Nat.min_eq_left covers, Option.map_some]
  have bound : words[length - 1]? = some ((words.take length).getLast taken) := by
    rw [last, List.getElem?_eq_getElem]
  rw [Reading.removed, first, final, bound]
  simp only [Option.map_some, Option.getD_some, ← stop]
  refine ⟨_, rfl, rfl, rfl, i, b, bn, p, ⟨source, reading.removed_spans⟩, closed, block, part, gap, phrase, ?_, ?_, ?_⟩
  · refine {
      source := at_, own_source := by simp [now], closed := place, reading := here, earlier := ?_,
      reference := (named i p at_).symm, starts := (held _ head).1, stops := (held _ tail).2, own_starts := ?_,
      own_stops := ?_, blank := blank, apart := ?_, held := held_, removed := ?_, counted := ?_ }
    · simp only [now, List.length_append, List.length_singleton] at earlier
      omega
    · rw [progress.previous, gapped]
      exact (inside _ (List.mem_of_mem_take (List.head_mem taken))).1
    · rw [stop]
      exact (inside _ (List.mem_of_mem_take (List.getLast_mem taken))).2
    · intro other removed
      rcases apart other removed with after | before
      · exact .inr (after _ tail)
      · exact .inl (before _ head)
    · rw [progress.previous, stop]
      exact lies
    · rw [formed, List.length_map, List.length_take, Nat.min_eq_left fits]
  · rw [partFormed, formed, ← very, matched, List.map_map]
    exact Iff.rfl
  · exact fun last => limit last _ tail

theorem Progress.removed {words later : List Word} {antecedent length : Nat} {reference : Nat → String}
    (progress : Progress casing strict agreed before source bn done (words ++ later) reading)
    (opened : Opened casing before source bn block done reading)
    (inside : ∀ w ∈ words, block.start ≤ w.start ∧ w.stop ≤ block.stop)
    (drawn : Drawn reading.context words antecedent length)
    (very : strict → reading.context.phrase antecedent = phraseOf words) {asked : Prop}
    (judged : asked ∨ reading.context.phrase antecedent ≠ phraseOf words)
    (named : ∀ i p, (now before source reading)[i]? = some p → reference i = p.source.envelope.source_url) :
    Progress casing strict (agreed ∧ asked) before source bn (done ++ words.take length) (words.drop length ++ later)
        (reading.removed digest source.text reference words antecedent length) ∧
      Opened casing before source bn block (done ++ words.take length)
        (reading.removed digest source.text reference words antecedent length) := by
  obtain ⟨span, is, starts, stops, recorded⟩ :=
    progress.antecedent digest opened.here inside drawn named
  have spelled : textWords casing source.text = done ++ words.take length ++ (words.drop length ++ later) := by
    rw [progress.whole, List.append_assoc, ← List.append_assoc (words.take length), List.take_append_drop]
  have taken : words.take length ≠ [] := by
    intro none
    have bounds := drawn.reaches
    have := congrArg List.length none
    rw [List.length_take, List.length_nil] at this
    simp only [MINIMUM_PHRASE_WORDS] at bounds
    omega
  have further : reading.previous_end ≤ stopOf (done ++ words.take length) := by
    rw [progress.previous]
    have listed := List.head_mem taken
    have ahead := stopOf_le_start progress.whole (List.mem_append_left later (List.mem_of_mem_take listed))
    have sized := (@textWords_ordered casing source.text).1 _ (by rw [spelled]; simp only [List.mem_append]; exact .inl (.inr listed))
    have ends := stop_le_stopOf spelled (List.mem_append_right done listed)
    omega
  rw [is]
  refine ⟨⟨spelled, rfl, ⟨?_, ?_, ?_⟩, ?_, ?_, ?_, ?_⟩, opened.here, ?_, ?_⟩
  · refine List.pairwise_append.mpr ⟨progress.excised.ordered, List.pairwise_singleton _ _, ?_⟩
    intro old listed new one
    rw [List.mem_singleton.mp one, starts]
    exact progress.behind old listed
  · intro old listed
    rcases List.mem_append.mp listed with listed | new
    · exact progress.excised.lies old listed
    · obtain ⟨_, _, _, _, _, _, _, _, _, _, antecedent, _⟩ := recorded
      have lies := antecedent.removed
      have here := antecedent.own_source
      simp only [now, List.getElem?_concat_length, Option.some_inj] at here
      rw [← here] at lies
      rw [List.mem_singleton.mp new]
      exact ⟨_, lies⟩
  · intro old listed
    rcases List.mem_append.mp listed with listed | new
    · exact progress.excised.parts old listed
    · rw [List.mem_singleton.mp new, starts, stops, progress.previous]
      exact ⟨parts_stopOf progress.whole, parts_stopOf spelled⟩
  · intro old listed
    rcases List.mem_append.mp listed with listed | new
    · exact Nat.le_trans (progress.behind old listed) further
    · rw [List.mem_singleton.mp new, stops]
  · intro old listed
    rcases List.mem_append.mp listed with listed | new
    · obtain ⟨same, holds, recorded⟩ := progress.recorded old listed
      exact ⟨same, holds, recorded.removed (Nat.le_of_eq starts.symm) further⟩
    · rw [List.mem_singleton.mp new]
      exact ⟨_, very, recorded.removed (Nat.le_of_eq starts.symm) further⟩
  · refine progress.indexed.map rfl rfl ?_
    intro start stop i b stretch earlier
    refine ⟨stretch.removed (Nat.le_of_eq starts.symm) further, ?_⟩
    simpa [now] using earlier
  · rcases progress.agreed with agreed | ⟨old, listed, recorded_⟩
    · refine judged.imp (fun asked => ⟨agreed, asked⟩) fun other => ?_
      exact ⟨span, by simp, (recorded.iff (iff_false_intro other)).removed (Nat.le_of_eq starts.symm) further⟩
    · exact .inr ⟨old, List.mem_append_left _ listed, recorded_.removed (Nat.le_of_eq starts.symm) further⟩
  · intro stretch waits
    obtain ⟨start, begun, closes⟩ := opened.closes progress
    simp only [KeptContext.interrupt, begun, Option.map_some, Option.toList_some] at waits
    rcases List.mem_append.mp waits with waits | new
    · exact (opened.pending stretch waits).removed (Nat.le_of_eq starts.symm) further
    · rw [List.mem_singleton.mp new]
      exact closes.removed (Nat.le_of_eq starts.symm) further
  · exact ⟨reading.context.words.length, done ++ words.take length, [], rfl, Nat.le_refl _, by simp,
      by simp [KeptContext.interrupt], by simp, by simp⟩

def Named (before : List Past) (source : Source) (reference : Nat → String) : Prop :=
  ∀ i p spans, (before ++ [⟨source, spans⟩])[i]? = some p → reference i = p.source.envelope.source_url

theorem Progress.words {asked : KeptContext → List Word → Prop} {matcher : Matcher} {reference : Nat → String}
    (takes : Takes strict asked matcher) (named : Named before source reference) (turns : Nat) (words : List Word)
    {later : List Word} (progress : Progress casing strict agreed before source bn done (words ++ later) reading)
    (opened : Opened casing before source bn block done reading)
    (inside : ∀ w ∈ words, block.start ≤ w.start ∧ w.stop ≤ block.stop) (enough : words.length ≤ turns) :
    Progress casing strict (agreed ∧ AlongWords digest asked matcher source.text reference before.length turns words reading)
        before source bn (done ++ words) later
        (readWords digest matcher source.text reference before.length turns words reading) ∧
      Opened casing before source bn block (done ++ words)
        (readWords digest matcher source.text reference before.length turns words reading) := by
  induction turns generalizing words done reading agreed with
  | zero =>
    obtain rfl := List.length_eq_zero_iff.mp (Nat.le_zero.mp enough)
    rw [List.append_nil]
    exact ⟨progress.agree fun agreed => ⟨agreed, trivial⟩, opened⟩
  | succ turns ih =>
    cases words with
    | nil =>
      rw [List.append_nil]
      exact ⟨progress.agree fun agreed => ⟨agreed, trivial⟩, opened⟩
    | cons word rest =>
      rw [readWords, AlongWords, readWord]
      cases found : matcher reading.context (word :: rest) with
      | none =>
        have held := inside word List.mem_cons_self
        obtain ⟨progress, opened⟩ := progress.kept opened held.1 held.2
        obtain ⟨read, open_⟩ := ih rest progress opened (fun w listed => inside w (List.mem_cons_of_mem _ listed))
          (by rw [List.length_cons] at enough; omega)
        rw [List.append_cons]
        exact ⟨read.agree fun agreed => ⟨agreed.1, takes.none _ _ found, agreed.2⟩, open_⟩
      | some best =>
        obtain ⟨antecedent, length⟩ := best
        obtain ⟨drawn, very, judged⟩ := takes.some_ _ _ _ _ found
        obtain ⟨progress, opened⟩ := progress.removed digest opened inside drawn very judged
          fun i p at_ => named i p _ at_
        have bounds := drawn.reaches
        simp only [MINIMUM_PHRASE_WORDS] at bounds
        obtain ⟨read, open_⟩ := ih ((word :: rest).drop length) progress opened
          (fun w listed => inside w (List.mem_of_mem_drop listed)) (by rw [List.length_drop]; omega)
        rw [List.append_assoc, List.take_append_drop] at read open_
        exact ⟨read.agree fun agreed => ⟨agreed.1.1, agreed.1.2, agreed.2⟩, open_⟩

theorem Progress.closed {asked : KeptContext → List Word → Prop} {matcher : Matcher} {reference : Nat → String}
    (takes : Takes strict asked matcher) (named : Named before source reference) {later : List Word} (here : (blocks source.text)[bn]? = some block)
    (progress : Progress casing strict agreed before source bn done (blockWords casing source.text block ++ later) reading)
    (idle : reading.context.pending = []) :
    Progress casing strict
        (agreed ∧ AlongBlock casing digest asked matcher source.text reference before.length reading block) before source
        (bn + 1) (done ++ blockWords casing source.text block) later
        (readBlock casing digest matcher source.text reference before.length reading block) ∧
      (readBlock casing digest matcher source.text reference before.length reading block).context.pending = [] := by
  have started : Progress casing strict agreed before source bn done (blockWords casing source.text block ++ later)
      { reading with context := reading.context.open_block } :=
    ⟨progress.whole, progress.previous, progress.excised, progress.behind, progress.recorded,
      progress.indexed.push (Nat.le_refl _) rfl (show _ = reading.context.words ++ [] by simp [KeptContext.open_block]),
        progress.agreed⟩
  have opened : Opened casing before source bn block done { reading with context := reading.context.open_block } := by
    refine ⟨here, ?_, reading.context.words.length, done, [], rfl, Nat.le_refl _, by simp, by simp [KeptContext.open_block],
      by simp, by simp⟩
    intro stretch waits
    simp only [KeptContext.open_block, idle] at waits
    cases waits
  have inside : ∀ w ∈ blockWords casing source.text block, block.start ≤ w.start ∧ w.stop ≤ block.stop := by
    intro w listed
    have within := blockWords_within casing (List.mem_of_getElem? here) listed
    exact ⟨within.1, within.2.2⟩
  obtain ⟨read, open_⟩ := started.words digest takes named _ _ opened inside (Nat.le_refl _)
  rw [readBlock]
  rw [← AlongBlock] at read
  generalize readWords digest matcher source.text reference before.length _ _ _ = reading' at *
  obtain ⟨start, begun, closes⟩ := open_.closes read
  have indexed : Indexed casing (now before source reading') (bn + 1) reading'.previous_end reading'.context.close_block ∧
      reading'.context.close_block.words = reading'.context.words ∧ reading'.context.close_block.pending = [] := by
    have blank : Indexed casing (now before source reading') (bn + 1) reading'.previous_end
        { reading'.context with stretch_start := none, pending := [] } := by
      refine read.indexed.map rfl rfl fun _ _ _ _ stretch earlier => ⟨stretch, ?_⟩
      omega
    rw [KeptContext.close_block]
    simp only [begun, Option.map_some, Option.toList_some]
    refine List.foldlRecOn (motive := fun context : KeptContext =>
      Indexed casing (now before source reading') (bn + 1) reading'.previous_end context ∧
        context.words = reading'.context.words ∧ context.pending = []) _ _ ⟨blank, rfl, rfl⟩ ?_
    rintro context ⟨indexed, same, none⟩ stretch waits
    have stretched : Stretch casing (now before source reading') reading'.previous_end context.words stretch.1 stretch.2
        before.length bn := by
      rw [same]
      rcases List.mem_append.mp waits with waits | new
      · exact open_.pending stretch waits
      · rw [List.mem_singleton.mp new]
        exact closes
    exact ⟨indexed.stretch stretched (.inr ⟨by simp [now], Nat.lt_succ_self bn⟩), same, none⟩
  exact ⟨⟨read.whole, read.previous, read.excised, read.behind, read.recorded, indexed.1, read.agreed⟩, indexed.2.2⟩

theorem Progress.blocks {asked : KeptContext → List Word → Prop} {matcher : Matcher} {reference : Nat → String}
    (takes : Takes strict asked matcher) (named : Named before source reference) (front bs : List Block) (all : blocks source.text = front ++ bs)
    (progress : Progress casing strict agreed before source front.length (front.flatMap (blockWords casing source.text))
      (bs.flatMap (blockWords casing source.text)) reading)
    (idle : reading.context.pending = []) :
    Progress casing strict
        (agreed ∧ AlongRun (readBlock casing digest matcher source.text reference before.length)
          (AlongBlock casing digest asked matcher source.text reference before.length) reading bs)
        before source (front ++ bs).length (textWords casing source.text) []
        (bs.foldl (readBlock casing digest matcher source.text reference before.length) reading) ∧
      (bs.foldl (readBlock casing digest matcher source.text reference before.length) reading).context.pending = [] := by
  induction bs generalizing front reading agreed with
  | nil =>
    rw [List.append_nil] at all ⊢
    rw [← all, blockWords_flatMap] at progress
    rw [← all]
    exact ⟨progress.agree fun agreed => ⟨agreed, trivial⟩, idle⟩
  | cons block bs ih =>
    rw [List.flatMap_cons] at progress
    have here : (Optimise.blocks source.text)[front.length]? = some block := by rw [all]; simp
    obtain ⟨closed, none⟩ := progress.closed digest takes named here idle
    obtain ⟨read, none⟩ := ih (front ++ [block]) (by rw [all]; simp) (by simpa using closed) none
    rw [List.append_assoc, List.singleton_append] at read
    exact ⟨read.agree fun agreed => ⟨agreed.1.1, agreed.1.2, agreed.2⟩, none⟩

end

/-! ### Whole runs -/

structure Sound (casing : Casing) (digest : List Char → String) (strict agreed : Prop) (past : List Past) (state : State) :
    Prop where
  kept : state.kept = past.map fun p => keptSource digest p.source p.spans
  seen : state.seen_sources = past.map fun p => (canonical casing p.source.text, p.source.envelope.source_url)
  excised : ∀ p ∈ past, Excised p.source.text p.spans
  recorded : ∀ j p, past[j]? = some p → ∀ span ∈ p.spans, ∃ very limit, (strict → very) ∧
    Recorded casing past limit j span very
  indexed : ∀ p, Indexed casing (past ++ [p]) 0 0 state.context
  idle : state.context.pending = []
  agreed : agreed ∨ ∃ j p limit, past[j]? = some p ∧ ∃ span ∈ p.spans, Recorded casing past limit j span False

section

variable {casing : Casing} {digest : List Char → String} {strict agreed : Prop} {asked : KeptContext → List Word →
    Prop} {past : List Past} {state : State} {matcher : Matcher}

theorem Sound.named (sound : Sound casing digest strict agreed past state) (source : Source) :
    Named past source (state.reference source.envelope) := by
  intro i p spans found
  rw [State.reference, sound.kept, List.getElem?_map]
  by_cases last : i = past.length
  · subst last
    obtain rfl : Past.mk source spans = p := by simpa using found
    simp
  · have bounded := (List.getElem?_eq_some_iff.mp found).1
    rw [List.length_append, List.length_singleton] at bounded
    rw [List.getElem?_append_left (by omega)] at found
    rw [found]
    rfl

theorem Sound.reads (sound : Sound casing digest strict agreed past state) (takes : Takes strict asked matcher)
    (source : Source) :
    Progress casing strict (AlongSource casing digest asked matcher state source) past source (blocks source.text).length
        (textWords casing source.text) [] (state.readSource casing digest matcher source) ∧
      (state.readSource casing digest matcher source).context.pending = [] := by
  have begins : Progress casing strict True past source ([] : List Block).length
      (([] : List Block).flatMap (blockWords casing source.text))
      ((blocks source.text).flatMap (blockWords casing source.text)) ⟨state.context, 0, []⟩ :=
    ⟨by rw [blockWords_flatMap]; rfl, rfl, ⟨List.Pairwise.nil, by simp, by simp⟩, by simp, by simp, sound.indexed _,
      .inl trivial⟩
  have kept : state.kept.length = past.length := by rw [sound.kept, List.length_map]
  obtain ⟨read, idle⟩ :=
    begins.blocks digest takes (sound.named source) [] (blocks source.text) rfl sound.idle
  rw [State.readSource, AlongSource, kept]
  exact ⟨read.agree fun agreed _ => agreed.2, idle⟩

theorem Sound.take (sound : Sound casing digest strict agreed past state) (takes : Takes strict asked matcher)
    (source : Source) :
    (∃ spans, (state.take casing digest matcher source).dropped = state.dropped ∧
      Sound casing digest strict (agreed ∧ AlongSource casing digest asked matcher state source) (past ++ [⟨source, spans⟩])
        (state.take casing digest matcher source)) ∨
    (∃ p ∈ past, canonical casing p.source.text = canonical casing source.text ∧
      (state.take casing digest matcher source).dropped = state.dropped ++
        [⟨source.envelope, p.source.envelope.source_url, approximate_tokens source.text⟩] ∧
      Sound casing digest strict (agreed ∧ AlongSource casing digest asked matcher state source) past
        (state.take casing digest matcher source)) := by
  rw [State.take]
  dsimp only
  cases found : state.seen_sources.find? fun seen => seen.1 = canonical casing source.text with
  | some seen =>
    have same : seen.1 = canonical casing source.text := by simpa using List.find?_some found
    have listed := List.mem_of_find?_eq_some found
    rw [sound.seen] at listed
    obtain ⟨p, inside, rfl⟩ := List.mem_map.mp listed
    have along : AlongSource casing digest asked matcher state source := by
      intro fresh
      rw [found] at fresh
      cases fresh
    exact .inr ⟨p, inside, same, rfl, sound.kept, sound.seen, sound.excised, sound.recorded, sound.indexed, sound.idle,
      sound.agreed.imp_left fun agreed => ⟨agreed, along⟩⟩
  | none =>
    obtain ⟨read, idle⟩ := sound.reads takes source
    have old {j : Nat} {p : Past} {spans : List RemovedSpan} (at_ : past[j]? = some p) :
        (past ++ [⟨source, spans⟩])[j]? = some p := by
      rw [List.getElem?_append_left (List.getElem?_eq_some_iff.mp at_).1]
      exact at_
    refine .inl ⟨(state.readSource casing digest matcher source).removed_spans, rfl, ?_, ?_, ?_, ?_, ?_, idle, ?_⟩
    · simp [sound.kept]
    · simp [sound.seen]
    · intro p listed
      rcases List.mem_append.mp listed with listed | new
      · exact sound.excised p listed
      · rw [List.mem_singleton.mp new]
        exact read.excised
    · intro j p at_ span removed
      by_cases last : j = past.length
      · subst last
        obtain rfl : Past.mk source _ = p := by simpa using at_
        obtain ⟨very, holds, recorded⟩ := read.recorded span removed
        exact ⟨very, _, holds, recorded⟩
      · have bounded := (List.getElem?_eq_some_iff.mp at_).1
        rw [List.length_append, List.length_singleton] at bounded
        rw [List.getElem?_append_left (by omega)] at at_
        obtain ⟨very, limit, holds, recorded⟩ := sound.recorded j p at_ span removed
        exact ⟨very, limit, holds, recorded.next⟩
    · intro p
      refine read.indexed.map rfl rfl fun start stop i b stretch earlier => ⟨stretch.next, ?_⟩
      simp only [now, List.length_append, List.length_singleton] at earlier ⊢
      omega
    · rcases sound.agreed with agreed | ⟨j, p, limit, at_, span, removed, recorded⟩
      · refine read.agreed.imp (fun along => ⟨agreed, along⟩) ?_
        rintro ⟨span, removed, recorded⟩
        exact ⟨past.length, _, _, List.getElem?_concat_length, span, removed, recorded⟩
      · exact .inr ⟨j, p, limit, old at_, span, removed, recorded.next⟩

end

end CommonMeasure.Optimise
