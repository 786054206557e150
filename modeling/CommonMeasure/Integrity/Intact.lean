import CommonMeasure.Integrity.Kept

namespace CommonMeasure.Integrity

section

variable {F : Type} {platform : Platform F} {release : Release} {letters : Letters}

/-! ### A sentence without words -/

theorem findRun_none_of_nil {kept : List Word} : findRun letters kept [] = none := by
  cases found : findRun letters kept [] with
  | none => rfl
  | some place =>
    obtain ⟨some_, fits, _⟩ := findRun_some found
    have := List.length_pos_of_ne_nil some_
    rw [List.length_nil] at fits
    omega

theorem firstCut_nil (index : Nat) : KeepIntact.firstCut letters (wholeCase release index []) = none := by
  refine List.findIdx?_eq_none_iff.mpr fun marker _ => decide_eq_false ?_
  rw [KeepIntact.outcome]
  split
  · decide
  · rename_i kept _
    have unfound : findRun letters (words kept) (words (wholeCase release index []).summary) = none := findRun_none_of_nil
    have none_ : (longestCommonRun letters (words (wholeCase release index []).summary) (words kept)).1 = 0 := rfl
    rw [unfound, none_]
    decide

def assured (platform : Platform F) (question : Question) (threshold : F) : Model F where
  checker :=
    { name := "model/1"
      manifest := .null
      questions := [.supported, .contradicts]
      check_many := fun cases => (cases.map fun _ =>
        [{ question := question, label := .yes, probability := some platform.one, basis := "model/1", reason := "",
           detail := .null }], .null)
      evidence := .null }
  threshold := threshold
  temperature := platform.one
  contradiction_threshold := platform.one

def askEmpty (platform : Platform F) (release : Release) (question : Question) (threshold : F) (id : String) : Asked F :=
  ask platform release (some (assured platform question threshold))
    (some [{ question := question, label := .yes, probability := some platform.one, basis := "model/1", reason := "",
             detail := .null }]) 0 false [] (cited release [id])

theorem filter_range_one {n place : Nat} (inside : place < n) :
    (List.range n).filter (fun m => some m ∈ [some place]) = [place] := by
  have same : (fun m => decide (some m ∈ [some place])) = (· == place) := by
    funext m
    simp [Bool.beq_eq_decide_eq]
  rw [same, List.filter_beq, List.count_eq_one_of_mem List.nodup_range (List.mem_range.mpr inside), List.replicate_one]

theorem cited_valid {p : Passage} (listed : p ∈ release.signed.passages) :
    (cited release [p.id]).valid = [p.id] ∧ (cited release [p.id]).passage.isSome = true := by
  cases found : release.signed.passages.findIdx? (·.id = p.id) with
  | none =>
    have absent := List.findIdx?_eq_none_iff.mp found p listed
    simp at absent
  | some place =>
    obtain ⟨inside, named, _⟩ := List.findIdx?_eq_some_iff_getElem.mp found
    have read : place ∈ (List.range release.signed.passages.length).filter fun n =>
        [place].any fun at_ => n = at_ - 1 || n = at_ || n = at_ + 1 :=
      List.mem_filter.mpr ⟨List.mem_range.mpr inside, by simp⟩
    rw [cited, List.map_singleton, found, filter_range_one inside, cited_at]
    dsimp only
    rw [if_neg (List.ne_nil_of_mem read)]
    refine ⟨?_, rfl⟩
    rw [List.filterMap_cons, List.getElem?_eq_getElem inside]
    simpa using named

variable {question : Question} {threshold : F} {id : String}

theorem askEmpty_cut : (askEmpty platform release question threshold id).cut_at = none :=
  (KeepIntact.check_cut platform _).trans (firstCut_nil 0)

theorem askEmpty_find {P : Answer F → Bool}
    (six : P (six_word_run platform (wholeCase release 0 [])) = false)
    (all : P (whole platform (wholeCase release 0 [])) = false)
    (person : P (Attribution.check platform (wholeCase release 0 [])) = false)
    (kept : P (KeepIntact.check platform (wholeCase release 0 [])).1 = false) :
    (askEmpty platform release question threshold id).answers.filter P =
      ([recordAnswer platform (assured platform question threshold) (cited release [id])
        { question := question, label := .yes, probability := some platform.one, basis := "model/1", reason := "",
          detail := .null }]).filter P := by
  rw [askEmpty, ask]
  simp only [List.cons_append, List.nil_append, Option.elim_some, answersOf, List.map_cons, List.map_nil]
  rw [List.filter_cons_of_neg (by simp [six]), List.filter_cons_of_neg (by simp [all]),
    List.filter_cons_of_neg (by simp [person]), List.filter_cons_of_neg (by simp [kept])]

theorem askEmpty_attributed (other : question ≠ .right_person_quoted) :
    misattribution (askEmpty platform release question threshold id) = none := by
  rw [misattribution, ← List.head?_filter, askEmpty_find rfl rfl rfl (by simp)]
  simp [recordAnswer, other]

theorem askEmpty_contradicts :
    contradiction (askEmpty platform release .contradicts threshold id).answers (some "model/1") = some platform.one := by
  rw [contradiction, Option.bind_some, ← List.head?_filter, askEmpty_find rfl rfl rfl (by simp)]
  rfl

theorem askEmpty_consistent :
    contradiction (askEmpty platform release .supported threshold id).answers (some "model/1") = none := by
  rw [contradiction, Option.bind_some, ← List.head?_filter, askEmpty_find rfl rfl rfl (by simp)]
  rfl

theorem askEmpty_admitted :
    admission platform (some (assured platform .supported (platform.scaled platform.one platform.one)))
      (askEmpty platform release .supported (platform.scaled platform.one platform.one) id) =
        some (.model (platform.scaled platform.one platform.one)) := by
  rw [admission, if_neg (show ¬(askEmpty ..).own = true from Bool.false_ne_true), support]
  have unwhole : (askEmpty platform release .supported (platform.scaled platform.one platform.one) id).answers.any
      (fun a => a.question = .supported && a.basis = WHOLE_NAME && a.label = .yes) = false := by
    rw [List.any_eq_false, ← List.filter_eq_nil_iff, askEmpty_find rfl rfl rfl (by simp)]
    rfl
  rw [if_neg (by rw [unwhole]; decide), show modelName _ = some "model/1" from rfl, Option.bind_some,
    askEmpty_find rfl rfl rfl (by simp)]
  have reached := platform.scaled_reaches
  simp [recordAnswer, assured, threshold, reached]

theorem render_askEmpty {p : Passage} (listed : p ∈ release.signed.passages) :
    (render platform release ⟨[.from_source [] [p.id]]⟩ (some (assured platform question threshold))).1.blocks =
      [sentence_block platform release (some (assured platform question threshold)) (displayMode release = STRICT)
        (askEmpty platform release question threshold p.id)] := by
  obtain ⟨⟨text, markers⟩, read⟩ := Option.isSome_iff_exists.mp (cited_valid listed).2
  have cases_ : modelCases release ⟨[.from_source [] [p.id]]⟩ =
      [(0, { id := itemId 0, passage := text, summary := [], markers := markers })] := by
    simp [modelCases, citation, read, Item.text]
  have answered : (modelAnswers release ⟨[.from_source [] [p.id]]⟩ (assured platform question threshold)).1 =
      [(0, [{ question := question, label := .yes, probability := some platform.one, basis := "model/1", reason := "",
              detail := .null }])] := by
    rw [modelAnswers, cases_]
    rfl
  simp only [render, Option.map_some, Option.getD_some, answered, List.zipIdx_cons, List.zipIdx_nil, List.map_cons,
    List.map_nil]
  rfl

theorem instead_cited {p : Passage} {part : List Char} (known : release.passage p.id = some (p, part)) :
    instead letters release [] [p.id] = some (p.id, part) := by
  rw [instead, List.filterMap_cons, known]
  rfl

theorem contradicted_shows {p : Passage} {part : List Char} (known : release.passage p.id = some (p, part)) (strict : Bool) :
    (sentence_block platform release (some (assured platform .contradicts threshold)) strict
      (askEmpty platform release .contradicts threshold p.id)).Shows release (release.trimmed p.range) := by
  have ruled := sentence_ruled platform release (some (assured platform .contradicts threshold)) strict
    (askEmpty platform release .contradicts threshold p.id)
  have opposed : ¬Unopposed platform release (some (assured platform .contradicts threshold))
      (askEmpty platform release .contradicts threshold p.id) := by
    intro unopposed
    have below := unopposed.consistent _ askEmpty_contradicts
    exact Bool.false_ne_true (below.symm.trans platform.one_reaches)
  have valid := (cited_valid (passage_some known).1).1
  generalize sentence_block platform release _ strict _ = block at ruled ⊢
  cases ruled with
  | kept kept reason cut => rw [askEmpty_cut] at cut; cases cut
  | attribution reason why misattributed => rw [askEmpty_attributed (by decide)] at misattributed; cases misattributed
  | contradiction reason c contradicts reached =>
    refine .inl ?_
    rw [withheld, show (askEmpty platform release .contradicts threshold p.id).cited.valid = [p.id] from valid,
      show (askEmpty platform release .contradicts threshold p.id).text = [] from rfl, instead_cited known]
    dsimp only [Option.bind_some]
    rw [known]
    rfl
  | confirmed admitted unopposed => exact (opposed unopposed).elim
  | unconfirmed reason unopposed => exact (opposed unopposed).elim
  | labelled outcome reason unopposed => exact (opposed unopposed).elim

theorem confirmed_shows {p : Passage} {part : List Char} (known : release.passage p.id = some (p, part)) (strict : Bool) :
    (sentence_block platform release (some (assured platform .supported (platform.scaled platform.one platform.one))) strict
      (askEmpty platform release .supported (platform.scaled platform.one platform.one) p.id)).Shows release p.range := by
  have ruled := sentence_ruled platform release (some (assured platform .supported (platform.scaled platform.one platform.one)))
    strict (askEmpty platform release .supported (platform.scaled platform.one platform.one) p.id)
  obtain ⟨listed, _, _⟩ := passage_some known
  have valid := (cited_valid listed).1
  generalize sentence_block platform release _ strict _ = block at ruled ⊢
  cases ruled with
  | kept kept reason cut => rw [askEmpty_cut] at cut; cases cut
  | attribution reason why misattributed => rw [askEmpty_attributed (by decide)] at misattributed; cases misattributed
  | contradiction reason c contradicts => cases askEmpty_consistent.symm.trans contradicts
  | confirmed admitted =>
    refine .inr ⟨⟨p.id, part⟩, ?_, p, listed, rfl, rfl⟩
    unfold confirmed
    dsimp only
    rw [show (askEmpty platform release .supported _ p.id).cited.valid = [p.id] from valid]
    simp [known]
  | unconfirmed reason unopposed stricter refused => cases askEmpty_admitted.symm.trans refused
  | labelled outcome reason unopposed looser refused => cases askEmpty_admitted.symm.trans refused

theorem quote_span {sentence : Option Nat} {range : Span} {reply : Reply} {model : Option (Model F)}
    {answered : List (Nat × List (Answer F))} {index : Nat}
    (named : quotedRange platform.toLetters release id sentence = some range) :
    (renderItem platform release reply model answered index (.quote id sentence)).1.span =
      some (match cut_marker release.signed.markers range.start range.stop with
        | some kept => release.trimmed kept.range
        | none => release.trimmed range) := by
  rcases quote_cases (F := F) platform.toLetters release id sentence with ⟨unnamed, _⟩ | ⟨other, _, _, _, _, also, is⟩
  · cases unnamed.symm.trans named
  · cases also.symm.trans named
    rw [renderItem, is, rangeBlock]
    cases cut_marker release.signed.markers range.start range.stop with
    | some kept => rfl
    | none => rfl

theorem shown_of_showable (placed : release.Placed) {range : Span} (showable : release.Showable platform.toLetters range) :
    ∃ reply model, ∃ block ∈ (render platform release reply model).1.blocks, block.Shows release range := by
  cases showable with
  | @passage p listed =>
    obtain ⟨part, known, _⟩ := placed.passage listed
    refine ⟨⟨[.from_source [] [p.id]]⟩, some (assured platform .supported (platform.scaled platform.one platform.one)), ?_⟩
    rw [render_askEmpty listed]
    exact ⟨_, List.mem_singleton_self _, confirmed_shows known _⟩
  | @trimmed p listed =>
    obtain ⟨part, known, _⟩ := placed.passage listed
    refine ⟨⟨[.from_source [] [p.id]]⟩, some (assured platform .contradicts platform.one), ?_⟩
    rw [render_askEmpty listed]
    exact ⟨_, List.mem_singleton_self _, contradicted_shows known _⟩
  | @quoted id sentence range named whole =>
    refine ⟨⟨[.quote id sentence]⟩, none, _, List.mem_singleton_self _, .inl ?_⟩
    rw [quote_span named, whole]
  | @expanded id sentence range kept named cut =>
    refine ⟨⟨[.quote id sentence]⟩, none, _, List.mem_singleton_self _, .inl ?_⟩
    rw [quote_span named, cut]
  | @withheld sentence place kept cut held =>
    refine ⟨⟨[.own sentence]⟩, none, _, List.mem_singleton_self _, .inl ?_⟩
    have first := KeepIntact.check_cut platform (wholeCase release 0 sentence)
    rw [cut] at first
    dsimp only [renderItem]
    rw [sentence_block, ask]
    dsimp only
    rw [first, Option.bind_some, held]
    rfl

/-- No rendering of the release, of whatever reply and by whatever model, shows a range that cuts a kept span. -/
def Release.ShownWhole (release : Release) (platform : Platform F) : Prop :=
  ∀ reply model rendered, (invoke_with platform ⟨release, .verified⟩ reply model).2 = some rendered →
    ∀ block ∈ rendered.blocks, ∀ range, block.Shows release range → release.Keeps range

end

section

variable {F : Type} (platform : Platform F)

/-- What is shown with a span is the text at it; and a release is shown whole exactly when its passages, as they stand and
trimmed, the ranges quotes name that cut nothing, trimmed, and the kept spans that quotes and sentences first cut, trimmed,
cut no kept span. -/
theorem shown_whole_iff {body release : Release} (accepted : read body = .ok release) :
    (∀ reply model rendered, (invoke_with platform ⟨release, .verified⟩ reply model).2 = some rendered →
        ∀ block ∈ rendered.blocks, block.Told release) ∧
      (release.ShownWhole platform ↔ ∀ range, release.Showable platform.toLetters range → release.Keeps range) := by
  obtain ⟨rfl, placed⟩ := read_placed accepted
  have shows (reply : Reply) (model : Option (Model F)) (block : Block F)
      (listed : block ∈ (render platform release reply model).1.blocks) :
      block.Told release ∧ ∀ range, block.Shows release range → release.Showable platform.toLetters range := by
    obtain ⟨_, made, rfl⟩ := List.mem_map.mp listed
    obtain ⟨⟨item, index⟩, _, rfl⟩ := List.mem_map.mp made
    exact renderItem_shows placed reply model _ index item
  refine ⟨?_, ?_, ?_⟩
  · rintro reply model _ ⟨⟩ block listed
    exact (shows reply model block listed).1
  · intro shownWhole range showable
    obtain ⟨reply, model, block, listed, shown⟩ := shown_of_showable placed showable
    exact shownWhole reply model _ rfl block listed range shown
  · rintro kept reply model _ ⟨⟩ block listed range shown
    exact kept range ((shows reply model block listed).2 range shown)

def crossing : Release where
  text := "The mayor resigned today.".toList
  signed :=
    { display_mode := LABELLED
      passages := [⟨"p1", 0, 25⟩, ⟨"p2", 10, 25⟩]
      markers := [⟨4, 18, "statement", "p1"⟩, ⟨10, 25, "date", "p2"⟩] }

theorem shown_whole_crossing :
    (∀ reply model rendered, (invoke_with .hundredths ⟨crossing, .verified⟩ reply model).2 = some rendered →
        ∀ block ∈ rendered.blocks, block.Told crossing) ∧
      (crossing.ShownWhole .hundredths ↔
        ∀ range, crossing.Showable Platform.hundredths.toLetters range → crossing.Keeps range) :=
  shown_whole_iff .hundredths (show read crossing = .ok crossing from rfl)

/-- The words quoted cover the first kept span and cut the second: the second is shown, and cuts the first. So does the
passage a confirmed sentence lists. -/
theorem crossing_cut :
    read crossing = .ok crossing ∧
      ((render .hundredths crossing ⟨[.quote "the mayor resigned" none, .from_source "today.".toList ["p2"]]⟩ none).1.blocks.map
        fun block => (block.outcome, block.span, block.sources.map Source.passage)) =
          [(.quote_expanded_to_kept, some ⟨10, 25⟩, []), (.shown_confirmed, none, ["p2"])] ∧
      ¬crossing.Keeps ⟨10, 25⟩ ∧ ¬crossing.ShownWhole .hundredths := by
  have shown : ((render .hundredths crossing
      ⟨[.quote "the mayor resigned" none, .from_source "today.".toList ["p2"]]⟩ none).1.blocks.map
        fun block => (block.outcome, block.span, block.sources.map Source.passage)) =
          [(.quote_expanded_to_kept, some ⟨10, 25⟩, []), (.shown_confirmed, none, ["p2"])] := by decide +kernel
  have cut : ¬crossing.Keeps ⟨10, 25⟩ := by
    intro keeps
    have covers := keeps ⟨4, 18, "statement", "p1"⟩ List.mem_cons_self ⟨10, by decide⟩
    exact absurd covers.1 (by decide)
  refine ⟨rfl, shown, cut, fun whole => cut ?_⟩
  obtain ⟨block, listed, same⟩ := List.mem_map.mp (shown.symm ▸ List.mem_cons_self)
  exact whole _ none _ rfl block listed _ (.inl (congrArg (fun shown => shown.2.1) same))

end

end CommonMeasure.Integrity
