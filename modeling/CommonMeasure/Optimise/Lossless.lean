import CommonMeasure.Optimise.Progress
import CommonMeasure.Optimise.Rebuilt

/-!
# The transformation is lossless

Up to case and white space the transformation loses nothing and can be checked from its record, where each look of a
joined key finds what the phrase does.
-/

namespace CommonMeasure.Optimise

/-! ### What is claimed -/

inductive Interleaved : List Source → List Source → List Source → Prop
  | nil : Interleaved [] [] []
  | kept {source sources kept dropped} : Interleaved sources kept dropped →
      Interleaved (source :: sources) (source :: kept) dropped
  | dropped {source sources kept dropped} : Interleaved sources kept dropped →
      Interleaved (source :: sources) kept (source :: dropped)

def Source.url (source : Source) : String := source.envelope.source_url

structure CutOut (source : Source) (kept : KeptSource) : Prop where
  envelope : kept.envelope = source.envelope
  excised : Excised source.text kept.removed_spans
  output : kept.text = excise source.text kept.removed_spans

def Repeats (casing : Casing) (inputs : List Source) (source : Source) (dropped : DroppedSource) : Prop :=
  dropped.envelope = source.envelope ∧
    ∃ held ∈ inputs, held.url = dropped.duplicate_of ∧ forms casing held.text = forms casing source.text

def pasts (inputs : List Source) (kept : List KeptSource) : List Past :=
  List.zipWith (fun source kept => ⟨source, kept.removed_spans⟩) inputs kept

structure LosslessAs (casing : Casing) (sources inputs duplicates : List Source) (t : Transformation) : Prop where
  parted : Interleaved sources inputs duplicates
  kept : List.Forall₂ CutOut inputs t.kept
  dropped : List.Forall₂ (Repeats casing inputs) duplicates t.dropped
  stands : ∀ j kept, t.kept[j]? = some kept → ∀ span ∈ kept.removed_spans, ∃ i b ob p q block own part gap phrase,
    Antecedent casing (pasts inputs t.kept) j span i b ob p q block own part gap phrase ∧
      forms casing part = forms casing (gap ++ phrase)
  rebuilt : ∀ source ∈ sources,
    rebuild casing (detail sources t) (t.kept.map KeptSource.text) source.url = forms casing source.text

def Lossless (casing : Casing) (sources : List Source) (t : Transformation) : Prop :=
  ∃ inputs duplicates, LosslessAs casing sources inputs duplicates t

/-- Wherever the optimiser that takes the very phrase looks, the joined key finds what the phrase does. -/
def Unambiguous (casing : Casing) (digest : List Char → String) (sources : List Source) : Prop :=
  AlongRun (State.take casing digest KeptContext.exact_match) (AlongSource casing digest Clear KeptContext.exact_match) {}
    sources

section

variable {sources inputs duplicates : List Source} {source : Source}

theorem Interleaved.snoc_kept (parted : Interleaved sources inputs duplicates) :
    Interleaved (sources ++ [source]) (inputs ++ [source]) duplicates := by
  induction parted with
  | nil => exact .kept .nil
  | kept _ ih => exact .kept ih
  | dropped _ ih => exact .dropped ih

theorem Interleaved.snoc_dropped (parted : Interleaved sources inputs duplicates) :
    Interleaved (sources ++ [source]) inputs (duplicates ++ [source]) := by
  induction parted with
  | nil => exact .dropped .nil
  | kept _ ih => exact .kept ih
  | dropped _ ih => exact .dropped ih

theorem Interleaved.perm (parted : Interleaved sources inputs duplicates) : sources.Perm (inputs ++ duplicates) := by
  induction parted with
  | nil => exact .nil
  | kept _ ih => exact ih.cons _
  | dropped _ ih => exact (ih.cons _).trans List.perm_middle.symm

end

section

variable {casing : Casing}

theorem formOf_solid {text : List Char} (solid : Solid text) : Solid (formOf casing text) := by
  obtain ⟨some_, black⟩ := solid
  refine ⟨?_, ?_⟩
  · cases text with
    | nil => exact (some_ rfl).elim
    | cons c text =>
      rw [formOf, List.flatMap_cons]
      exact fun none => casing.some_ c (List.append_eq_nil_iff.mp none).1
  · intro d listed
    obtain ⟨c, inside, made⟩ := List.mem_flatMap.mp listed
    exact casing.black c (black c inside) d made

theorem words_spaced (parts : List (List Char)) (solid : ∀ part ∈ parts, Solid part) (offset : Nat) :
    (wordsAt offset (parts.flatMap fun part => part ++ [' '])).map CommonMeasure.Word.text = parts := by
  induction parts generalizing offset with
  | nil => rfl
  | cons part parts ih =>
    have blank : Blank [' '] := by simp [Blank, isWhitespace]
    have breaks : Breaks ([' '] ++ parts.flatMap fun part => part ++ [' ']) := by
      intro c listed
      obtain rfl : ' ' = c := by simpa using listed
      decide
    rw [List.flatMap_cons, List.append_assoc, wordsAt_append breaks, wordsAt_solid (solid part List.mem_cons_self),
      wordsAt_gap blank, List.map_append, ih (fun other listed => solid other (List.mem_cons_of_mem _ listed))]
    rfl

theorem words_trimEnd (text : List Char) : words (trimEnd text) = words text := by
  have split : text = trimEnd text ++ (text.reverse.takeWhile isWhitespace).reverse := by
    rw [trimEnd, ← List.reverse_append, List.takeWhile_append_dropWhile, List.reverse_reverse]
  have blank : Blank (text.reverse.takeWhile isWhitespace).reverse := by
    intro c listed
    exact List.all_eq_true.mp List.all_takeWhile c (List.mem_reverse.mp listed)
  generalize trimEnd text = front at split ⊢
  rw [split, words, words, wordsAt_append blank.breaks, wordsAt_blank blank, List.append_nil]

theorem canonical_forms (text : List Char) : (words (canonical casing text)).map CommonMeasure.Word.text = forms casing text := by
  have flat : ((words text).flatMap fun word => formOf casing word.text ++ [' ']) =
      (forms casing text).flatMap fun part => part ++ [' '] := by
    rw [forms, List.flatMap_map]
  rw [canonical, words_trimEnd, flat]
  refine words_spaced _ ?_ 0
  intro part listed
  obtain ⟨w, inside, rfl⟩ := List.mem_map.mp listed
  exact formOf_solid ((words_laid text).solid w inside)

theorem forms_of_canonical {a b : List Char} (same : canonical casing a = canonical casing b) :
    forms casing a = forms casing b := by
  rw [← canonical_forms, ← canonical_forms, same]

end

section

variable {casing : Casing} {digest : List Char → String} {asked : KeptContext → List Word → Prop} {matcher other : Matcher}

theorem alongWords_congr (same : ∀ context words, asked context words → matcher context words = other context words)
    {text : List Char} {reference : Nat → String} {source turns : Nat} {words : List Word} {reading : Reading}
    (along : AlongWords digest asked matcher text reference source turns words reading) :
    AlongWords digest asked other text reference source turns words reading ∧
      readWords digest matcher text reference source turns words reading =
        readWords digest other text reference source turns words reading := by
  induction turns generalizing words reading with
  | zero => exact ⟨trivial, rfl⟩
  | succ turns ih =>
    cases words with
    | nil => exact ⟨trivial, rfl⟩
    | cons word rest =>
      obtain ⟨here, along⟩ := along
      have step : readWord digest matcher text reference source word rest reading =
          readWord digest other text reference source word rest reading := by
        rw [readWord, readWord, same _ _ here]
      rw [step] at along
      obtain ⟨along, reads⟩ := ih along
      rw [readWords, readWords, AlongWords, step]
      exact ⟨⟨here, along⟩, reads⟩

theorem alongSource_congr (same : ∀ context words, asked context words → matcher context words = other context words)
    {state : State} {source : Source} (along : AlongSource casing digest asked matcher state source) :
    AlongSource casing digest asked other state source ∧
      state.take casing digest matcher source = state.take casing digest other source := by
  have block (reading : Reading) (block : Block)
      (along : AlongBlock casing digest asked matcher source.text (state.reference source.envelope) state.kept.length reading
        block) :
      AlongBlock casing digest asked other source.text (state.reference source.envelope) state.kept.length reading block ∧
        readBlock casing digest matcher source.text (state.reference source.envelope) state.kept.length reading block =
          readBlock casing digest other source.text (state.reference source.envelope) state.kept.length reading block := by
    obtain ⟨along, reads⟩ := alongWords_congr same along
    refine ⟨along, ?_⟩
    rw [readBlock, readBlock, reads]
  rw [State.take, State.take]
  dsimp only
  cases found : state.seen_sources.find? fun seen => seen.1 = canonical casing source.text with
  | some seen =>
    refine ⟨fun fresh => ?_, rfl⟩
    rw [found] at fresh
    cases fresh
  | none =>
    obtain ⟨along, reads⟩ := AlongRun.congr block (along found)
    refine ⟨fun _ => along, ?_⟩
    have same : state.readSource casing digest matcher source = state.readSource casing digest other source := reads
    dsimp only
    rw [same]

theorem along_congr (same : ∀ context words, asked context words → matcher context words = other context words)
    {sources : List Source}
    (along : AlongRun (State.take casing digest matcher) (AlongSource casing digest asked matcher) {} sources) :
    AlongRun (State.take casing digest other) (AlongSource casing digest asked other) {} sources ∧
      takeAll casing digest matcher sources = takeAll casing digest other sources :=
  AlongRun.congr (fun _ _ => alongSource_congr same) along

theorem unambiguous_iff {sources : List Source} :
    Unambiguous casing digest sources ↔
      AlongRun (State.take casing digest KeptContext.longest_match) (AlongSource casing digest Clear KeptContext.longest_match)
        {} sources :=
  ⟨fun along => (along_congr (fun _ _ clear => Eq.symm clear) along).1, fun along => (along_congr (fun _ _ => id) along).1⟩

theorem Repeats.grow {inputs more : List Source} {source : Source} {dropped : DroppedSource}
    (repeats : Repeats casing inputs source dropped) : Repeats casing (inputs ++ more) source dropped := by
  obtain ⟨envelope, held, listed, named, same⟩ := repeats
  exact ⟨envelope, held, List.mem_append_left _ listed, named, same⟩

theorem takeAll_sound (casing : Casing) (digest : List Char → String) {strict : Prop} (takes : Takes strict asked matcher)
    (sources : List Source) :
    ∃ past duplicates, Sound casing digest strict
        (AlongRun (State.take casing digest matcher) (AlongSource casing digest asked matcher) {} sources) past
        (takeAll casing digest matcher sources) ∧
      Interleaved sources (past.map Past.source) duplicates ∧
      List.Forall₂ (Repeats casing (past.map Past.source)) duplicates (takeAll casing digest matcher sources).dropped := by
  induction sources using List.reverseRecOn with
  | nil =>
    have none : Indexed casing ([] ++ []) 0 0 {} := by
      intro key occurrences found
      cases found
    refine ⟨[], [], ⟨rfl, rfl, by simp, by simp, ?_, rfl, .inl trivial⟩, .nil, .nil⟩
    intro p key occurrences found
    cases found
  | append_singleton sources source ih =>
    obtain ⟨past, duplicates, sound, parted, repeats⟩ := ih
    have last : takeAll casing digest matcher (sources ++ [source]) =
        (takeAll casing digest matcher sources).take casing digest matcher source := by
      rw [takeAll, List.foldl_append]
      rfl
    have ran : runWith (State.take casing digest matcher) {} sources = takeAll casing digest matcher sources := rfl
    rw [AlongRun.snoc, last, ran]
    rcases sound.take takes source with ⟨spans, dropped, sound⟩ | ⟨p, listed, same, dropped, sound⟩
    · refine ⟨past ++ [⟨source, spans⟩], duplicates, sound, ?_, ?_⟩
      · rw [List.map_append]
        exact parted.snoc_kept
      · rw [dropped, List.map_append]
        exact repeats.imp fun _ _ repeats => repeats.grow
    · refine ⟨past, duplicates ++ [source], sound, parted.snoc_dropped, ?_⟩
      rw [dropped]
      exact List.rel_append repeats (.cons ⟨rfl, p.source, List.mem_map_of_mem listed, rfl, forms_of_canonical same⟩ .nil)

end

section

variable {casing : Casing} {digest : List Char → String} {sources duplicates : List Source} {past : List Past}
  {agreed strict : Prop} {state : State}

theorem pasts_sound (sound : Sound casing digest strict agreed past state) :
    pasts (past.map Past.source) state.kept = past := by
  rw [sound.kept, pasts, List.zipWith_map]
  simp [keptSource]

theorem kept_url (sound : Sound casing digest strict agreed past state) :
    (state.kept.map fun kept => kept.envelope.source_url) = (past.map Past.source).map Source.url := by
  rw [sound.kept, List.map_map, List.map_map]
  rfl

theorem rebuild_kept (sound : Sound casing digest True agreed past state)
    (distinct : ((past.map Past.source).map Source.url).Nodup) {p : Past} (listed : p ∈ past) :
    let t : Transformation := ⟨state.kept, state.dropped⟩
    restore casing ((detail sources t).held (t.kept.map KeptSource.text)) 0
        ((detail sources t).outputOf (t.kept.map KeptSource.text) p.source.url) ((detail sources t).spansOf p.source.url) =
      forms casing p.source.text := by
  intro t
  have urls : (t.kept.map fun kept => kept.envelope.source_url).Nodup := by
    rw [show t.kept = state.kept from rfl, kept_url sound]
    exact distinct
  have inside {q : Past} (held : q ∈ past) : keptSource digest q.source q.spans ∈ t.kept := by
    rw [show t.kept = state.kept from rfl, sound.kept]
    exact List.mem_map_of_mem held
  have spans {q : Past} (held : q ∈ past) : (detail sources t).spansOf q.source.url = q.spans :=
    spansOf_kept urls (inside held)
  have output {q : Past} (held : q ∈ past) :
      (detail sources t).outputOf (t.kept.map KeptSource.text) q.source.url = excise q.source.text q.spans :=
    outputOf_kept urls (inside held)
  rw [spans listed, output listed]
  refine restore_exciseFrom (a := []) (sound.excised p listed) ?_ rfl rfl fun _ _ => Nat.zero_le _
  intro span removed part lies
  obtain ⟨j, at_⟩ := List.mem_iff_getElem?.mp listed
  obtain ⟨very, limit, holds, i, b, ob, q, r, block, own, held, gap, phrase, antecedent, same, _⟩ :=
    sound.recorded j p at_ span removed
  obtain rfl : p = r := Option.some_inj.mp (at_.symm.trans antecedent.own_source)
  obtain rfl := lies.unique antecedent.removed
  rw [← same.mpr (holds trivial)]
  have source := List.mem_of_getElem? antecedent.source
  obtain ⟨n, sum, found⟩ := lies_exciseFrom (sound.excised q source) (List.nil_append _).symm byteLen_nil (fun _ _ => Nat.zero_le _)
    antecedent.held (Nat.zero_le _) antecedent.apart
  have reference : span.first_kept.reference = q.source.url := antecedent.reference.symm
  rw [Detail.held, reference, spans source, output source]
  have place : span.first_kept.start - removedBefore q.spans span.first_kept.start = n := by omega
  rw [place, excise, slice_iff.mpr found, Option.getD_some]

theorem dropped_found {inputs : List Source} {dropped : List DroppedSource}
    (repeats : List.Forall₂ (Repeats casing inputs) duplicates dropped) (distinct : (duplicates.map Source.url).Nodup) :
    (∀ source ∈ duplicates, ∃ d, dropped.find? (fun d => d.envelope.source_url = source.url) = some d ∧
        Repeats casing inputs source d) ∧
      ∀ url, url ∉ duplicates.map Source.url → dropped.find? (fun d => d.envelope.source_url = url) = none := by
  induction repeats with
  | nil => simp
  | @cons source d duplicates dropped repeat_ _ ih =>
    rw [List.map_cons, List.nodup_cons] at distinct
    obtain ⟨finds, misses⟩ := ih distinct.2
    have named : d.envelope.source_url = source.url := by rw [repeat_.1]; rfl
    refine ⟨?_, ?_⟩
    · intro other listed
      rcases List.mem_cons.mp listed with rfl | listed
      · exact ⟨d, by simp [named], repeat_⟩
      · have differs : d.envelope.source_url ≠ other.url := by
          rw [named]
          exact fun same => distinct.1 (same ▸ List.mem_map_of_mem listed)
        obtain ⟨e, found, repeats⟩ := finds other listed
        exact ⟨e, by rw [List.find?_cons_of_neg (by simpa using differs), found], repeats⟩
    · intro url absent
      rw [List.map_cons, List.mem_cons, not_or] at absent
      rw [List.find?_cons_of_neg (by rw [named]; simpa using Ne.symm absent.1)]
      exact misses url absent.2

theorem lossless_of_sound (sound : Sound casing digest True agreed past state)
    (parted : Interleaved sources (past.map Past.source) duplicates)
    (repeats : List.Forall₂ (Repeats casing (past.map Past.source)) duplicates state.dropped)
    (distinct : (sources.map Source.url).Nodup) :
    LosslessAs casing sources (past.map Past.source) duplicates ⟨state.kept, state.dropped⟩ := by
  have both := (parted.perm.map Source.url).nodup_iff.mp distinct
  rw [List.map_append, List.nodup_append] at both
  obtain ⟨inputs, others, apart⟩ := both
  obtain ⟨finds, misses⟩ := dropped_found repeats others
  refine ⟨parted, ?_, repeats, ?_, ?_⟩
  · show List.Forall₂ CutOut _ state.kept
    rw [sound.kept, List.forall₂_map_left_iff, List.forall₂_map_right_iff, List.forall₂_same]
    exact fun p listed => ⟨rfl, sound.excised p listed, rfl⟩
  · intro j kept at_ span removed
    dsimp only at at_ ⊢
    rw [pasts_sound sound]
    rw [sound.kept, List.getElem?_map] at at_
    obtain ⟨p, found, rfl⟩ := Option.map_eq_some_iff.mp at_
    obtain ⟨very, limit, holds, i, b, ob, q, r, block, own, part, gap, phrase, antecedent, same, _⟩ :=
      sound.recorded j p found span removed
    exact ⟨i, b, ob, q, r, block, own, part, gap, phrase, antecedent, same.mpr (holds trivial)⟩
  · intro source listed
    have lookup (url : String) : ((detail sources ⟨state.kept, state.dropped⟩).removed_sources.find?
        fun source => source.reference = url) = (state.dropped.find? fun d => d.envelope.source_url = url).map
          fun d => ⟨d.envelope.source_url, d.duplicate_of, d.tokens⟩ := by
      rw [detail, List.find?_map]
      rfl
    rw [rebuild, lookup]
    rcases List.mem_append.mp (parted.perm.mem_iff.mp listed) with kept | dropped
    · obtain ⟨p, here, rfl⟩ := List.mem_map.mp kept
      have absent : p.source.url ∉ duplicates.map Source.url := fun again =>
        apart _ (List.mem_map_of_mem kept) _ again rfl
      rw [misses _ absent]
      exact rebuild_kept sound inputs here
    · obtain ⟨d, found, _, held, listed, named, same⟩ := finds source dropped
      obtain ⟨p, here, rfl⟩ := List.mem_map.mp listed
      rw [found, ← same]
      simp only [Option.map_some, Option.getD_some, ← named]
      exact rebuild_kept sound inputs here

theorem lossy_of_recorded (sound : Sound casing digest strict agreed past state)
    (parted : Interleaved sources (past.map Past.source) duplicates) (distinct : (sources.map Source.url).Nodup)
    {j limit : Nat} {p : Past} (at_ : past[j]? = some p) {span : RemovedSpan} (removed : span ∈ p.spans)
    (recorded : Recorded casing past limit j span False) : ¬Lossless casing sources ⟨state.kept, state.dropped⟩ := by
  rintro ⟨inputs, others, lossless⟩
  obtain ⟨i, b, ob, q, r, block, own, part, gap, phrase, antecedent, lost, _⟩ := recorded
  have member {source : Source} (listed : source ∈ past.map Past.source) : source ∈ sources :=
    parted.perm.mem_iff.mpr (List.mem_append_left _ listed)
  have belongs {source : Source} (listed : source ∈ inputs) : source ∈ sources :=
    lossless.parted.perm.mem_iff.mpr (List.mem_append_left _ listed)
  -- The sources are those the run kept, each known by its url.
  have same : inputs = past.map Past.source := by
    have urls : inputs.map Source.url = (past.map Past.source).map Source.url := by
      have kept := lossless.kept
      rw [← kept_url sound]
      have related : List.Forall₂ (fun (source : Source) (kept : KeptSource) => source.url = kept.envelope.source_url) inputs
          state.kept := kept.imp fun _ _ cut => by rw [cut.envelope]; rfl
      have mapped : List.Forall₂ (· = ·) (inputs.map Source.url) (state.kept.map fun kept => kept.envelope.source_url) := by
        rw [List.forall₂_map_left_iff, List.forall₂_map_right_iff]
        exact related
      exact List.forall₂_eq_eq_eq ▸ mapped
    refine List.ext_getElem? fun n => ?_
    have at_n := congrArg (fun urls => urls[n]?) urls
    simp only [List.getElem?_map] at at_n
    cases one : inputs[n]? with
    | none =>
      rw [one] at at_n
      cases other : (past.map Past.source)[n]? with
      | none => rfl
      | some source =>
        rw [List.getElem?_map] at other
        obtain ⟨p, found, _⟩ := Option.map_eq_some_iff.mp other
        rw [found] at at_n
        cases at_n
    | some source =>
      rw [one] at at_n
      cases found : past[n]? with
      | none =>
        rw [found] at at_n
        cases at_n
      | some p =>
        rw [found] at at_n
        have urls : source.url = p.source.url := Option.some_inj.mp at_n
        rw [List.getElem?_map, found, Option.map_some,
          named_inj distinct (belongs (List.mem_of_getElem? one))
            (member (List.mem_map_of_mem (List.mem_of_getElem? found))) urls]
  subst same
  have kept : state.kept[j]? = some (keptSource digest p.source p.spans) := by
    rw [sound.kept, List.getElem?_map, at_]
    rfl
  obtain ⟨i', b', ob', q', r', block', own', part', gap', phrase', stands, very⟩ := lossless.stands j _ kept span removed
  rw [pasts_sound sound] at stands
  have source : q'.source = q.source := by
    refine named_inj distinct (member (List.mem_map_of_mem (List.mem_of_getElem? stands.source)))
      (member (List.mem_map_of_mem (List.mem_of_getElem? antecedent.source))) ?_
    exact stands.reference.trans antecedent.reference.symm
  have reader : r' = r := Option.some_inj.mp (stands.own_source.symm.trans antecedent.own_source)
  have held := stands.held
  have removed := stands.removed
  rw [source] at held
  rw [reader] at removed
  rw [held.unique antecedent.held, removed.unique antecedent.removed] at very
  exact lost.mp very

theorem unambiguous_of_lossless (distinct : (sources.map Source.url).Nodup)
    (lossless : Lossless casing sources (invoke casing digest sources)) : Unambiguous casing digest sources := by
  obtain ⟨past, duplicates, sound, parted, _⟩ := takeAll_sound casing digest takes_longest sources
  rcases sound.agreed with clear | ⟨j, p, limit, at_, span, removed, recorded⟩
  · exact unambiguous_iff.mpr clear
  · exact (lossy_of_recorded sound parted distinct at_ removed recorded lossless).elim

theorem lossless_of_unambiguous (distinct : (sources.map Source.url).Nodup) (clear : Unambiguous casing digest sources) :
    Lossless casing sources (invoke casing digest sources) := by
  obtain ⟨past, duplicates, sound, parted, repeats⟩ := takeAll_sound casing digest takes_exact sources
  have same := (along_congr (fun _ _ clear => Eq.symm clear) clear).2
  have lossless := lossless_of_sound sound parted repeats distinct
  rw [same] at lossless
  exact ⟨_, _, lossless⟩

end

/-- Where sources have distinct urls the transformation is lossless just where no joined key finds another phrase. -/
theorem lossless_iff (casing : Casing) (digest : List Char → String) (sources : List Source)
    (distinct : (sources.map Source.url).Nodup) :
    Lossless casing sources (invoke casing digest sources) ↔ Unambiguous casing digest sources :=
  ⟨unambiguous_of_lossless distinct, lossless_of_unambiguous distinct⟩

/-! ### Sources that are, and are not -/

def AlongWords.decide (digest : List Char → String) {asked : KeptContext → List Word → Prop}
    (each : ∀ context words, Decidable (asked context words)) (matcher : Matcher) (text : List Char)
    (reference : Nat → String) (source : Nat) :
    ∀ turns words reading, Decidable (AlongWords digest asked matcher text reference source turns words reading)
  | turns + 1, word :: rest, reading =>
    have := each reading.context (word :: rest)
    have := AlongWords.decide digest each matcher text reference source turns
      (readWord digest matcher text reference source word rest reading).1
      (readWord digest matcher text reference source word rest reading).2
    inferInstanceAs (Decidable (asked _ _ ∧ AlongWords digest asked matcher text reference source turns _ _))
  | 0, _, _ => .isTrue trivial
  | _ + 1, [], _ => .isTrue trivial

instance (context : KeptContext) (words : List Word) : Decidable (Clear context words) :=
  inferInstanceAs (Decidable (context.longest_match words = context.exact_match words))

instance (casing : Casing) (digest : List Char → String) (sources : List Source) :
    Decidable (Unambiguous casing digest sources) :=
  have words := AlongWords.decide digest (fun context words => inferInstanceAs (Decidable (Clear context words)))
    KeptContext.exact_match
  have block (text : List Char) (reference : Nat → String) (source : Nat) (reading : Reading) (block : Block) :
      Decidable (AlongBlock casing digest Clear KeptContext.exact_match text reference source reading block) :=
    words text reference source _ _ _
  have sourceLooks (state : State) (source : Source) :
      Decidable (AlongSource casing digest Clear KeptContext.exact_match state source) :=
    have := AlongRun.decide
      (readBlock casing digest KeptContext.exact_match source.text (state.reference source.envelope) state.kept.length) _
      (block source.text (state.reference source.envelope) state.kept.length) ⟨state.context, 0, []⟩ (blocks source.text)
    inferInstanceAs (Decidable (_ → _))
  AlongRun.decide _ _ sourceLooks {} sources

def newsletters : List Source :=
  [⟨⟨"https://a.example/1"⟩, "Fact one.\nSign up to our newsletter".toList⟩,
    ⟨⟨"https://a.example/2"⟩, "Fact two.\nSign up to our newsletter".toList⟩]

theorem lossless_newsletters : Lossless Casing.ascii newsletters (invoke Casing.ascii (fun _ => "") newsletters) :=
  (lossless_iff Casing.ascii (fun _ => "") newsletters (by decide)).mpr (by decide)

def controls : List Source :=
  [⟨⟨"https://a.example/1"⟩, "a\x01b c d e".toList⟩, ⟨⟨"https://a.example/2"⟩, "a b\x01c d e".toList⟩]

/-- The second text is removed whole, for a phrase whose words are others. -/
theorem lossless_controls : ¬∀ sources : List Source, (sources.map Source.url).Nodup →
    Lossless Casing.ascii sources (invoke Casing.ascii (fun _ => "") sources) := by
  intro lossless
  have clear := unambiguous_of_lossless (by decide) (lossless controls (by decide))
  exact (by decide : ¬Unambiguous Casing.ascii (fun _ => "") controls) clear

end CommonMeasure.Optimise
