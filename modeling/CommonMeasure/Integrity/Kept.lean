import CommonMeasure.Integrity.Render

namespace CommonMeasure.Integrity

def Span.Meets (range : Span) (m : KeptSpan) : Prop := ∃ i, range.start ≤ i ∧ i < range.stop ∧ m.start ≤ i ∧ i < m.stop

def Span.Covers (range : Span) (m : KeptSpan) : Prop := range.start ≤ m.start ∧ m.stop ≤ range.stop

def Release.Keeps (release : Release) (range : Span) : Prop := ∀ m ∈ release.signed.markers, range.Meets m → range.Covers m

def Passage.range (p : Passage) : Span := ⟨p.start, p.stop⟩

def KeptSpan.range (m : KeptSpan) : Span := ⟨m.start, m.stop⟩

def Release.trimmed (release : Release) (range : Span) : Span := Span.trimmed release.text range.start range.stop

def Block.Shows {F : Type} (block : Block F) (release : Release) (range : Span) : Prop :=
  block.span = some range ∨
    ∃ source ∈ block.sources, ∃ p ∈ release.signed.passages, p.id = source.passage ∧ range = p.range

def quotedRange (letters : Letters) (release : Release) (passage : String) (sentence : Option Nat) : Option Span :=
  match release.passage passage with
  | none => quotedWords letters release passage
  | some (p, text) => quotedPassage p text sentence

/-- The ranges of a release some reply has shown: each passage, and it trimmed; the range a quote names, trimmed, or the
kept span that range first cuts; and the kept span a sentence first cuts. -/
inductive Release.Showable (release : Release) (letters : Letters) : Span → Prop
  | passage {p} : p ∈ release.signed.passages → Showable release letters p.range
  | trimmed {p} : p ∈ release.signed.passages → Showable release letters (release.trimmed p.range)
  | quoted {id sentence range} : quotedRange letters release id sentence = some range →
    cut_marker release.signed.markers range.start range.stop = none → Showable release letters (release.trimmed range)
  | expanded {id sentence range kept} : quotedRange letters release id sentence = some range →
    cut_marker release.signed.markers range.start range.stop = some kept →
    Showable release letters (release.trimmed kept.range)
  | withheld {sentence place kept} : KeepIntact.firstCut letters (wholeCase release 0 sentence) = some place →
    release.signed.markers[place]? = some kept → Showable release letters (release.trimmed kept.range)

/-! ### Ranges lie in the text -/

section

variable {letters : Letters} {release : Release} {text : List Char}

theorem sentencesFrom_lies {closing : List Char → Nat} {white : Char → Bool} (start index skip : Nat) (rest : List Char)
    {before after done : List Char} (opened : text = before ++ after) (first : byteLen before = start)
    (reading : text = done ++ rest) (reached : byteLen done = index) (behind : start ≤ index + byteLen (rest.take skip)) :
    ∀ s ∈ sentencesFrom closing white start index skip rest, ∃ part, Lies text s.1 s.2 part := by
  induction rest generalizing start index skip before after done with
  | nil =>
    intro s listed
    rw [sentencesFrom] at listed
    split at listed
    · obtain rfl := List.mem_singleton.mp listed
      subst first reached
      exact lies_between opened reading (by omega)
    · cases listed
  | cons c rest ih =>
    have next : text = (done ++ [c]) ++ rest := by rw [reading, List.append_cons]
    have moved : byteLen (done ++ [c]) = index + c.utf8Size := by rw [byteLen_append, reached, byteLen_cons, byteLen_nil]; rfl
    cases skip with
    | succ skip =>
      rw [List.take_succ_cons, byteLen_cons] at behind
      rw [sentencesFrom]
      exact ih start _ skip opened first next moved (by omega)
    | zero =>
      rw [List.take_zero, byteLen_nil] at behind
      rw [sentencesFrom]
      split
      · -- A sentence ends: it lies between two boundaries, and the next starts where it ends.
        have closed : text = (done ++ [c] ++ rest.take (closing rest)) ++ rest.drop (closing rest) := by
          rw [List.append_assoc, List.take_append_drop, next]
        have stop : byteLen (done ++ [c] ++ rest.take (closing rest)) =
            index + c.utf8Size + byteLen (rest.take (closing rest)) := by rw [byteLen_append, moved]
        intro s listed
        rcases List.mem_cons.mp listed with rfl | listed
        · have part := lies_between opened closed (by omega)
          rwa [first, stop] at part
        · exact ih _ _ _ closed stop next moved (Nat.le_refl _) s listed
      · exact ih start _ 0 opened first next moved (by rw [List.take_zero, byteLen_nil]; omega)

theorem sentences_lies {s : Nat × Nat} (listed : s ∈ Attribution.sentences text) : ∃ part, Lies text s.1 s.2 part :=
  @sentencesFrom_lies text _ _ 0 0 0 text [] text [] rfl rfl rfl rfl (Nat.zero_le _) s listed

theorem quotedRange_lies {id : String} {sentence : Option Nat} {range : Span}
    (named : quotedRange letters release id sentence = some range) : ∃ part, Lies release.text range.start range.stop part := by
  rw [quotedRange] at named
  split at named
  · obtain ⟨place, found, rfl⟩ := Option.map_eq_some_iff.mp named
    split at found
    · obtain ⟨_, fits, _⟩ := findRun_some found
      exact spanOf_lies (by omega) fits
    · cases found
  · rename_i p text found
    obtain ⟨listed, _, lies⟩ := passage_some found
    cases sentence with
    | none =>
      cases named
      exact ⟨text, lies⟩
    | some n =>
      obtain ⟨s, held, rfl⟩ := Option.map_eq_some_iff.mp named
      obtain ⟨part, inner⟩ := sentences_lies (List.mem_of_getElem? held)
      exact ⟨part, lies.inside inner⟩

theorem longestRun_mem {sentence : List Char} {entries : List (String × List Char)} {id : String} {held : List Char} {run : Nat}
    (found : longestRun letters sentence entries = some (id, held, run)) : (id, held) ∈ entries := by
  suffices kept : ∀ more best, (∀ b ∈ best, (b.1, b.2.1) ∈ entries) → more ⊆ entries →
      ∀ b ∈ more.foldl (longerRun letters sentence) best, (b.1, b.2.1) ∈ entries from
    kept entries none (by simp) (List.Subset.refl _) _ found
  intro more
  induction more with
  | nil => exact fun best listed _ => listed
  | cons entry more ih =>
    intro best listed within
    obtain ⟨here, within⟩ := List.cons_subset.mp within
    refine ih _ ?_ within
    rw [longerRun]
    split
    · intro b same
      cases same
      exact here
    · exact listed

theorem instead_cases {sentence : List Char} {valid : List String} {entry : String × List Char}
    (found : instead letters release sentence valid = some entry) :
    (∃ p, release.passage entry.1 = some (p, entry.2)) ∨ entry ∈ passages release := by
  rw [instead] at found
  split at found
  · rename_i run best
    cases found
    obtain ⟨other, _, named⟩ := List.mem_filterMap.mp (longestRun_mem best)
    obtain ⟨⟨p, text⟩, named, same⟩ := Option.map_eq_some_iff.mp named
    cases same
    obtain ⟨_, rfl, _⟩ := passage_some named
    exact .inl ⟨p, named⟩
  · rw [nearest_passage] at found
    split at found
    · rename_i run best
      split at found
      · cases found
        exact .inr (longestRun_mem best)
      · exact .inr (List.mem_of_head? found)
    · exact .inr (List.mem_of_head? found)

theorem mem_passages {entry : String × List Char} (listed : entry ∈ passages release) :
    ∃ p ∈ release.signed.passages, p.id = entry.1 ∧ Lies release.text p.start p.stop entry.2 := by
  obtain ⟨p, member, held⟩ := List.mem_filterMap.mp listed
  obtain ⟨text, lies, rfl⟩ := Option.map_eq_some_iff.mp held
  exact ⟨p, member, rfl, slice_iff.mp lies⟩

theorem instead_lies {sentence : List Char} {valid : List String} {entry : String × List Char}
    (found : instead letters release sentence valid = some entry) :
    ∃ p ∈ release.signed.passages, Lies release.text p.start p.stop entry.2 := by
  rcases instead_cases found with ⟨p, known⟩ | listed
  · obtain ⟨member, _, lies⟩ := passage_some known
    exact ⟨p, member, lies⟩
  · obtain ⟨p, member, _, lies⟩ := mem_passages listed
    exact ⟨p, member, lies⟩

theorem instead_passage (placed : release.Placed) {sentence : List Char} {valid : List String} {entry : String × List Char}
    (found : instead letters release sentence valid = some entry) : ∃ p, release.passage entry.1 = some (p, entry.2) := by
  rcases instead_cases found with known | listed
  · exact known
  · obtain ⟨p, member, named, lies⟩ := mem_passages listed
    obtain ⟨part, known, also⟩ := placed.passage member
    obtain rfl := also.unique lies
    exact ⟨p, named ▸ known⟩

variable {F : Type}

def Block.Told (block : Block F) (release : Release) : Prop :=
  ∀ span, block.span = some span → slice release.text span.start span.stop = some block.text

theorem source_block_told {outcome : Outcome} {label passage reason : String} {start stop : Nat} {part : List Char}
    (lies : Lies release.text start stop part) :
    (source_block (F := F) outcome label release start stop passage reason).Told release := by
  rintro _ ⟨⟩
  have held := slice_iff.mpr (Span.trimmed_lies lies)
  rw [source_block]
  dsimp only
  rw [held, Option.getD_some]

theorem shows_source_block {outcome : Outcome} {label passage reason : String} {start stop : Nat} {shown : Span}
    (shows : (source_block (F := F) outcome label release start stop passage reason).Shows release shown) :
    shown = Span.trimmed release.text start stop := by
  rcases shows with ⟨⟨⟩⟩ | ⟨source, listed, _⟩
  · rfl
  · cases listed

def rangeBlock (release : Release) (range : Span) (label passage reason what : String) : Block F :=
  match cut_marker release.signed.markers range.start range.stop with
  | some kept => kept_block release kept what
  | none => source_block .quote_shown label release range.start range.stop passage reason

theorem quote_cases (letters : Letters) (release : Release) (id : String) (sentence : Option Nat) :
    (quotedRange letters release id sentence = none ∧ ∃ reason, quote (F := F) letters release id sentence = refused id reason) ∨
      ∃ range label passage reason what, quotedRange letters release id sentence = some range ∧
        quote (F := F) letters release id sentence = rangeBlock release range label passage reason what := by
  rw [quote, quotedRange]
  cases release.passage id with
  | none =>
    dsimp only
    cases quotedWords letters release id with
    | none => exact .inl ⟨rfl, _, rfl⟩
    | some range => exact .inr ⟨range, _, _, _, _, rfl, rfl⟩
  | some found =>
    dsimp only
    cases quotedPassage found.1 found.2 sentence with
    | none => exact .inl ⟨rfl, _, rfl⟩
    | some range => exact .inr ⟨range, _, _, _, _, rfl, rfl⟩

theorem quote_shows (placed : release.Placed) (id : String) (sentence : Option Nat) :
    (quote (F := F) letters release id sentence).Told release ∧
      ∀ range, (quote (F := F) letters release id sentence).Shows release range → release.Showable letters range := by
  rcases quote_cases (F := F) letters release id sentence with ⟨_, reason, is⟩ | ⟨range, label, passage, reason, what,
    quoted, is⟩
  · rw [is]
    refine ⟨fun span held => (nomatch held), fun range shows => ?_⟩
    rcases shows with span | ⟨source, listed, _⟩
    · cases span
    · cases listed
  · rw [is, rangeBlock]
    split
    · rename_i kept cut
      obtain ⟨part, lies⟩ := placed.markers kept (List.mem_of_find?_eq_some cut)
      refine ⟨source_block_told lies, fun shown shows => ?_⟩
      rw [shows_source_block shows]
      exact .expanded quoted cut
    · rename_i cut
      obtain ⟨part, lies⟩ := quotedRange_lies quoted
      refine ⟨source_block_told lies, fun shown shows => ?_⟩
      rw [shows_source_block shows]
      exact .quoted quoted cut

variable {platform : Platform F}

theorem withheld_shows (placed : release.Placed) (outcome : Outcome) (asked : Asked F) (reason : String) :
    (withheld platform release outcome asked reason).Told release ∧
      ∀ range, (withheld platform release outcome asked reason).Shows release range → release.Showable letters range := by
  rw [withheld]
  dsimp only
  cases found : instead platform.toLetters release asked.text asked.cited.valid with
  | none =>
    refine ⟨fun span held => (nomatch held), fun range shows => ?_⟩
    rcases shows with span | ⟨source, listed, _⟩
    · cases span
    · cases listed
  | some fallback =>
    obtain ⟨id, text⟩ := fallback
    obtain ⟨p, named⟩ := instead_passage placed found
    obtain ⟨member, _, lies⟩ := passage_some named
    simp only [Option.bind_some, named, Option.map_some, Option.elim_some]
    refine ⟨?_, fun range shows => ?_⟩
    · rintro _ ⟨⟩
      exact slice_iff.mpr (Span.trimmed_lies lies)
    · rcases shows with ⟨⟨⟩⟩ | ⟨source, listed, _⟩
      · exact .trimmed member
      · cases listed

theorem rule_shows (placed : release.Placed) {model : Option (Model F)} {strict : Bool} {asked : Asked F} {block : Block F}
    (cut : asked.cut_at = KeepIntact.firstCut letters (wholeCase release 0 asked.text))
    (ruled : Rule platform release model strict asked block) :
    block.Told release ∧ ∀ range, block.Shows release range → release.Showable letters range := by
  have unshown : ∀ outcome reason, (labelled outcome asked reason).Told release ∧
      ∀ range, (labelled outcome asked reason).Shows release range → release.Showable letters range := by
    refine fun outcome reason => ⟨fun span held => (nomatch held), fun range shows => ?_⟩
    rcases shows with span | ⟨source, listed, _⟩
    · cases span
    · cases listed
  cases ruled with
  | kept kept reason found =>
    obtain ⟨place, first, held⟩ := Option.bind_eq_some_iff.mp found
    obtain ⟨part, lies⟩ := placed.markers kept (List.mem_of_getElem? held)
    let block : Block F := source_block .withheld_kept (keptLabel kept) release kept.start kept.stop kept.passage reason
    have told : block.Told release := source_block_told lies
    have shown (range : Span) (shows : block.Shows release range) := shows_source_block shows
    refine ⟨told, fun range shows => ?_⟩
    rw [shown range shows]
    exact .withheld (cut ▸ first) held
  | attribution reason => exact withheld_shows placed _ asked reason
  | contradiction reason => exact withheld_shows placed _ asked reason
  | unconfirmed reason => exact withheld_shows placed _ asked reason
  | labelled outcome reason => exact unshown outcome reason
  | confirmed admitted =>
    refine ⟨fun span held => (nomatch held), fun range shows => ?_⟩
    rcases shows with span | ⟨source, _, p, member, _, rfl⟩
    · cases span
    · exact .passage member

theorem renderItem_shows (placed : release.Placed) (reply : Reply) (model : Option (Model F))
    (answered : List (Nat × List (Answer F))) (index : Nat) (item : Item) :
    (renderItem platform release reply model answered index item).1.Told release ∧
      ∀ range, (renderItem platform release reply model answered index item).1.Shows release range →
        release.Showable platform.toLetters range := by
  have sentence : ∀ asks own text c, let asked := ask platform release model asks index own text c
      let block := sentence_block platform release model (displayMode release = STRICT) asked
      block.Told release ∧ ∀ range, block.Shows release range → release.Showable platform.toLetters range :=
    fun asks own text c => rule_shows placed (KeepIntact.check_cut platform (wholeCase release index text))
      (sentence_ruled platform release model _ _)
  cases item with
  | quote id nth => exact quote_shows placed id nth
  | from_source text passages => exact sentence _ false text _
  | own text => exact sentence _ true text _

end

end CommonMeasure.Integrity
