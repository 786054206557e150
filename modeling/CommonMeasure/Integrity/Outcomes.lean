import CommonMeasure.Integrity.Kept

/-!
# What each outcome stands for

A sentence shown as confirmed has passed every stage, one that a stage is sure against is shown in neither mode, and
what is not the release's is shown unconfirmed only where the source asks for labels.
-/

namespace CommonMeasure.Integrity

section

variable {F : Type} (platform : Platform F)

/-! ### What a sentence does -/

def Reproduces (letters : Letters) (count : Nat) (sentence kept : List Char) : Prop :=
  ∃ run a b c d, keys letters (words sentence) = a ++ run ++ b ∧ keys letters (words kept) = c ++ run ++ d ∧
    count ≤ run.length ∧ ∀ word ∈ run, word ≠ []

def Cuts (letters : Letters) (release : Release) (sentence : List Char) : Prop :=
  ∃ m ∈ release.signed.markers, ∃ kept, slice release.text m.start m.stop = some kept ∧
    Reproduces letters KeepIntact.MINIMUM_RUN_WORDS sentence kept ∧ ¬Verbatim letters kept sentence

def examined (release : Release) (sentence : List Char) : List Attribution.Examined :=
  (Attribution.quotations platform.toLetters sentence).map fun quotation =>
    (Attribution.examine platform (wholeCase release 0 sentence) quotation).2

/-- It gives a quotation to someone the text does not, or one that is not in the text while none of them is borne out. -/
def Misattributes (release : Release) (sentence : List Char) : Prop :=
  .attributed false ∈ examined platform release sentence ∨
    .missing ∈ examined platform release sentence ∧ .attributed true ∉ examined platform release sentence

def given (release : Release) (reply : Reply) (model : Model F) (index : Nat) : List (Answer F) :=
  (((modelAnswers release reply model).1.find? (·.1 = index)).map Prod.snd).getD []

def Model.contradiction (model : Model F) (answers : List (Answer F)) : Option F :=
  (answers.find? fun a => a.question = .contradicts && a.basis = model.checker.name).bind Answer.probability

structure Model.Proper (model : Model F) : Prop where
  named : ∀ cases, ∀ answers ∈ (model.checker.check_many cases).1, ∀ a ∈ answers, a.basis = model.checker.name
  apart : model.checker.name ≠ WHOLE_NAME ∧ model.checker.name ≠ six_word_name

structure Confirmed (release : Release) (reply : Reply) (model : Option (Model F)) (index : Nat) (text : List Char) : Prop where
  supported : (∀ m ∈ model, m.Proper) → Verbatim platform.toLetters text release.text ∨
    ∃ m ∈ model, ∃ a ∈ given release reply m index, ∃ p, a.question = .supported ∧ a.probability = some p ∧
      platform.reaches (platform.scaled p m.temperature) m.threshold = true
  attributed : ¬Misattributes platform release text
  consistent : ∀ m ∈ model, ∀ c ∈ m.contradiction (given release reply m index),
    platform.reaches c m.contradiction_threshold = false
  whole : ¬Cuts platform.toLetters release text

def Opposed (release : Release) (reply : Reply) (model : Option (Model F)) (index : Nat) (text : List Char) : Prop :=
  Cuts platform.toLetters release text ∨ Misattributes platform release text ∨
    ∃ m ∈ model, ∃ c ∈ m.contradiction (given release reply m index), platform.reaches c m.contradiction_threshold = true

def Block.OfRelease {F : Type} (block : Block F) (release : Release) : Prop :=
  block.text = [] ∨ ∃ start stop, slice release.text start stop = some block.text

structure Displayed (release : Release) (reply : Reply) (model : Option (Model F)) (index : Nat) (item : Item)
    (block : Block F) : Prop where
  quoted : ∀ passage nth, item = .quote passage nth →
    block.outcome ∈ [Outcome.quote_shown, .quote_expanded_to_kept, .quote_refused]
  confirmed : block.outcome = .shown_confirmed →
    ∃ text passages, item = .from_source text passages ∧ Confirmed platform release reply model index text
  withheld : (∀ passage nth, item ≠ .quote passage nth) → Opposed platform release reply model index item.text →
    block.outcome ∈ [Outcome.withheld_kept, .withheld_attribution, .withheld_contradiction]
  text : block.outcome ∈ [Outcome.shown_confirmed, .shown_own, .shown_unconfirmed] ∧ block.text = item.text ∨
    block.OfRelease release
  labelled : release.signed.display_mode ≠ LABELLED → block.outcome ≠ .shown_confirmed → block.OfRelease release

variable {platform} {letters : Letters} {release : Release} {reply : Reply} {model : Option (Model F)} {index : Nat}
  {text : List Char}

theorem cut_of_cuts (cuts : Cuts letters release text) (index : Nat) : ∃ kept,
    (KeepIntact.firstCut letters (wholeCase release index text)).bind (release.signed.markers[·]?) = some kept := by
  obtain ⟨m, listed, kept, held, ⟨run, a, b, c, d, inSentence, inKept, enough, nonempty⟩, partial_⟩ := cuts
  have cut : KeepIntact.outcome letters (wholeCase release index text)
      { start := m.start, stop := m.stop, label := markerLabel m } = .cut := by
    have unwhole : ¬(findRun letters (words kept) (words (wholeCase release index text).summary)).isSome = true :=
      fun whole => partial_ (findRun_isSome.mp whole)
    rw [KeepIntact.outcome, show slice (wholeCase release index text).passage m.start m.stop = some kept from held]
    dsimp only
    rw [if_neg unwhole]
    exact if_pos (Nat.le_trans enough (longestCommonRun_longest inSentence inKept nonempty))
  cases found : KeepIntact.firstCut letters (wholeCase release index text) with
  | none =>
    have uncut := List.findIdx?_eq_none_iff.mp found _ (List.mem_map_of_mem listed)
    rw [cut] at uncut
    cases uncut
  | some place =>
    obtain ⟨inside, _⟩ := List.findIdx?_eq_some_iff_getElem.mp found
    simp only [wholeCase, List.length_map] at inside
    exact ⟨_, List.getElem?_eq_getElem inside⟩

section

open Attribution

theorem verdict_no {held : Option (Label × String)} (no : held.any (·.1 = .no) = true) (more : List Examined) :
    (more.foldl verdict held).any (·.1 = .no) = true := by
  induction more generalizing held with
  | nil => exact no
  | cons e more ih =>
    refine ih ?_
    cases held with
    | none => cases no
    | some held =>
      cases e with
      | missing | unnamed | unresolved => exact no
      | attributed named =>
        rw [verdict, if_pos no]
        exact no

theorem verdict_attributed {more : List Examined} (listed : .attributed false ∈ more) (held : Option (Label × String)) :
    (more.foldl verdict held).any (·.1 = .no) = true := by
  obtain ⟨before, after, rfl⟩ := List.append_of_mem listed
  rw [List.foldl_append, List.foldl_cons]
  refine verdict_no ?_ after
  generalize before.foldl verdict held = held
  rw [verdict]
  split
  · assumption
  · rfl

theorem verdict_missing {more : List Examined} (listed : .missing ∈ more) (unborne : .attributed true ∉ more) :
    (more.foldl verdict none).any (·.1 = .no) = true := by
  obtain ⟨before, after, rfl⟩ := List.append_of_mem listed
  rw [List.foldl_append, List.foldl_cons]
  refine verdict_no ?_ after
  -- Without a quotation borne out, what is held is a no or nothing.
  have held : ∀ earlier ⊆ before, (earlier.foldl verdict none).all (·.1 = .no) = true := by
    intro earlier
    induction earlier using List.reverseRecOn with
    | nil => exact fun _ => rfl
    | append_singleton earlier e ih =>
      intro within
      have so := ih fun _ member => within (List.mem_append_left _ member)
      rw [List.foldl_append, List.foldl_cons, List.foldl_nil]
      generalize earlier.foldl verdict none = held at so
      cases e with
      | missing => cases held with
        | none => rfl
        | some held => exact so
      | unnamed | unresolved => exact so
      | attributed named =>
        cases named with
        | true => exact (unborne (List.mem_append_left _ (within (by simp)))).elim
        | false =>
          rw [verdict]
          split
          · exact so
          · rfl
  have so := held before (List.Subset.refl _)
  cases found : before.foldl verdict none with
  | none => rfl
  | some held =>
    rw [found] at so
    exact so

theorem check_no {case_ : Case}
    (no : ((((quotations platform.toLetters case_.summary).map (examine platform case_)).map Prod.snd).foldl verdict none).any
      (·.1 = .no) = true) : (Attribution.check platform case_).label = .no := by
  rw [Attribution.check]
  dsimp only
  cases reached : (((quotations platform.toLetters case_.summary).map (examine platform case_)).map Prod.snd).foldl verdict
      none with
  | none =>
    rw [reached] at no
    cases no
  | some held =>
    rw [reached] at no
    simpa using no

end

theorem check_of_misattributes (misattributes : Misattributes platform release text) (index : Nat) :
    (Attribution.check platform (wholeCase release index text)).label = .no := by
  refine check_no ?_
  rw [List.map_map]
  rcases misattributes with wrong | ⟨missing, unborne⟩
  · exact verdict_attributed wrong none
  · exact verdict_missing missing unborne

/-- The answers of a sentence: the deterministic stages', and what the checker gave or that it was not asked. -/
def askedOf (platform : Platform F) (release : Release) (reply : Reply) (model : Option (Model F)) (index : Nat) (own : Bool)
    (text : List Char) (c : Cited) : Asked F :=
  ask platform release model ((((model.map (modelAnswers release reply)).map Prod.fst).getD []).find? (·.1 = index) |>.map Prod.snd)
    index own text c

variable {own : Bool} {c : Cited}

theorem answers_eq : (askedOf platform release reply model index own text c).answers =
    [six_word_run platform (wholeCase release index text), whole platform (wholeCase release index text),
      Attribution.check platform (wholeCase release index text),
        (KeepIntact.check platform (wholeCase release index text)).1] ++
      model.elim [] fun m => answersOf platform m c (((modelAnswers release reply m).1.find? (·.1 = index)).map Prod.snd) := by
  cases model <;> rfl

theorem answersOf_cases {m : Model F} {a : Answer F}
    (listed : a ∈ answersOf platform m c (((modelAnswers release reply m).1.find? (·.1 = index)).map Prod.snd)) :
    a = notAsked platform c ∨ ∃ b ∈ given release reply m index, a = recordAnswer platform m c b := by
  rw [given]
  cases found : ((modelAnswers release reply m).1.find? (·.1 = index)).map Prod.snd with
  | none =>
    rw [found] at listed
    exact .inl (List.mem_singleton.mp listed)
  | some answers =>
    rw [found] at listed
    obtain ⟨b, member, rfl⟩ := List.mem_map.mp listed
    exact .inr ⟨b, member, rfl⟩

theorem given_named {m : Model F} (proper : m.Proper) : ∀ a ∈ given release reply m index, a.basis = m.checker.name := by
  intro a listed
  rw [given] at listed
  cases found : (modelAnswers release reply m).1.find? (·.1 = index) with
  | none =>
    rw [found] at listed
    cases listed
  | some entry =>
    rw [found] at listed
    have member := List.mem_of_find?_eq_some found
    rw [modelAnswers] at member
    split at member
    · cases member
    · exact proper.named _ _ (List.of_mem_zip member).2 a listed

theorem contradiction_eq : contradiction (askedOf platform release reply model index own text c).answers (modelName model) =
    model.bind fun m => m.contradiction (given release reply m index) := by
  cases model with
  | none => rfl
  | some m =>
    rw [contradiction, answers_eq, show modelName (some m) = some m.checker.name from rfl, Option.bind_some, Option.bind_some,
      List.find?_append, List.find?_eq_none.mpr (by simp), Option.none_or,
      Option.elim_some, Model.contradiction, given]
    cases ((modelAnswers release reply m).1.find? (·.1 = index)).map Prod.snd with
    | none => rfl
    | some answers =>
      rw [answersOf, Option.getD_some, List.find?_map, Option.bind_map]
      change (answers.find? fun a => a.question = .contradicts && a.basis = m.checker.name).bind
        (fun a => (recordAnswer platform m c a).probability) = _
      refine Option.bind_congr fun a found => ?_
      have asked := List.find?_some found
      simp only [Bool.and_eq_true, decide_eq_true_eq] at asked
      simp [recordAnswer, asked.1]

theorem admission_some {admitted : Admitted F}
    (admits : admission platform model (askedOf platform release reply model index own text c) = some admitted) :
    own = false ∧ ((∀ m ∈ model, m.Proper) → Verbatim platform.toLetters text release.text ∨
      ∃ m ∈ model, ∃ a ∈ given release reply m index, ∃ p, a.question = .supported ∧ a.probability = some p ∧
        platform.reaches (platform.scaled p m.temperature) m.threshold = true) := by
  rw [admission] at admits
  split at admits
  · cases admits
  rename_i notOwn
  have notOwn : ¬own = true := notOwn
  refine ⟨by simpa using notOwn, fun proper => ?_⟩
  rw [support, answers_eq] at admits
  split at admits
  · rename_i verbatim
    obtain ⟨a, listed, is⟩ := List.any_eq_true.mp verbatim
    simp only [Bool.and_eq_true, decide_eq_true_eq] at is
    obtain ⟨⟨asked, basis⟩, yes⟩ := is
    rcases List.mem_append.mp listed with listed | listed
    · simp only [List.mem_cons, List.not_mem_nil, or_false] at listed
      rcases listed with rfl | rfl | rfl | rfl
      · exact absurd basis (show six_word_name ≠ WHOLE_NAME by decide)
      · exact .inl (whole_yes.mp yes)
      · exact absurd asked (by simp)
      · exact absurd asked (by simp)
    · cases model with
      | none => cases listed
      | some m =>
        rcases answersOf_cases listed with rfl | ⟨b, member, rfl⟩
        · exact absurd basis (show CITED_NAME ≠ WHOLE_NAME by decide)
        · have named := given_named (proper m rfl) b member
          exact ((proper m rfl).apart.1 (named.symm.trans basis)).elim
  · cases model with
    | none => cases admits
    | some m =>
      refine .inr ⟨m, rfl, ?_⟩
      obtain ⟨p, found, _⟩ := Option.map_eq_some_iff.mp admits
      have reached := List.find?_some found
      obtain ⟨a, listed, probability⟩ := List.mem_filterMap.mp (List.mem_of_find?_eq_some found)
      obtain ⟨listed, is⟩ := List.mem_filter.mp listed
      simp only [Bool.and_eq_true, decide_eq_true_eq] at is
      obtain ⟨asked, basis⟩ := is
      rcases List.mem_append.mp listed with listed | listed
      · simp only [List.mem_cons, List.not_mem_nil, or_false] at listed
        rcases listed with rfl | rfl | rfl | rfl
        · exact ((proper m rfl).apart.2 basis.symm).elim
        · exact ((proper m rfl).apart.1 basis.symm).elim
        · exact absurd asked (by simp)
        · exact absurd asked (by simp)
      · rcases answersOf_cases listed with rfl | ⟨b, member, rfl⟩
        · cases probability
        · have asked : b.question = .supported := asked
          simp only [recordAnswer, asked, if_true] at probability
          cases raw : b.probability with
          | none =>
            rw [raw] at probability
            cases probability
          | some q =>
            rw [raw] at probability
            cases probability
            exact ⟨b, member, q, asked, raw, reached⟩

theorem unopposed_not (unopposed : Unopposed platform release model (askedOf platform release reply model index own text c)) :
    ¬Opposed platform release reply model index text := by
  rintro (cuts | misattributes | ⟨m, held, p, contradicts, reached⟩)
  · obtain ⟨kept, found⟩ := cut_of_cuts cuts index
    have whole := unopposed.whole
    rw [show (askedOf platform release reply model index own text c).cut_at = _ from
      KeepIntact.check_cut platform (wholeCase release index text), found] at whole
    cases whole
  · have no := check_of_misattributes misattributes index
    have attributed := List.find?_eq_none.mp (Option.map_eq_none_iff.mp unopposed.attributed)
      (Attribution.check platform (wholeCase release index text)) (by rw [answers_eq]; simp)
    simp [no] at attributed
  · cases held
    have below := unopposed.consistent p (by rw [contradiction_eq]; exact contradicts)
    cases below.symm.trans reached

theorem source_block_of {outcome : Outcome} {label passage reason : String} {start stop : Nat} :
    (source_block (F := F) outcome label release start stop passage reason).OfRelease release := by
  rw [Block.OfRelease, source_block]
  dsimp only
  cases held : slice release.text (Span.trimmed release.text start stop).start (Span.trimmed release.text start stop).stop with
  | none => exact .inl rfl
  | some part => exact .inr ⟨_, _, held⟩

theorem withheld_of {outcome : Outcome} {asked : Asked F} {reason : String} :
    (withheld platform release outcome asked reason).OfRelease release := by
  rw [Block.OfRelease, Integrity.withheld]
  dsimp only
  cases found : instead platform.toLetters release asked.text asked.cited.valid with
  | none => exact .inl rfl
  | some fallback =>
    obtain ⟨p, _, lies⟩ := instead_lies found
    exact .inr ⟨_, _, slice_iff.mpr (Span.trimmed_lies lies)⟩

theorem quote_of {id : String} {nth : Option Nat} :
    (quote (F := F) letters release id nth).outcome ∈ [Outcome.quote_shown, .quote_expanded_to_kept, .quote_refused] ∧
      (quote (F := F) letters release id nth).OfRelease release := by
  rcases quote_cases (F := F) letters release id nth with ⟨_, reason, is⟩ | ⟨range, label, passage, reason, what, _, is⟩
  · rw [is]
    exact ⟨by simp [refused], .inl rfl⟩
  · rw [is, rangeBlock]
    split
    · exact ⟨by simp [kept_block, source_block], source_block_of⟩
    · exact ⟨by simp [source_block], source_block_of⟩

theorem displayed_of_release {block : Block F} {item : Item} (sentence : ∀ passage nth, item ≠ .quote passage nth)
    (one : block.outcome ∈ [Outcome.withheld_kept, .withheld_attribution, .withheld_contradiction, .withheld_unconfirmed])
    (sure : Opposed platform release reply model index item.text → block.outcome ≠ .withheld_unconfirmed)
    (of : block.OfRelease release) : Displayed platform release reply model index item block where
  quoted passage nth is := (sentence passage nth is).elim
  confirmed shown := by
    rw [shown] at one
    exact absurd one (by decide)
  withheld _ against := by
    have other := sure against
    generalize block.outcome = outcome at one other
    revert one other
    cases outcome <;> decide
  text := .inr of
  labelled _ _ := of

theorem rule_displayed {block : Block F} {item : Item} (sentence : ∀ passage nth, item ≠ .quote passage nth)
    (source : own = false → ∃ passages, item = .from_source item.text passages)
    (ruled : Rule platform release model (displayMode release = STRICT)
      (askedOf platform release reply model index own item.text c) block) :
    Displayed platform release reply model index item block := by
  cases ruled with
  | kept kept reason cut =>
    let block : Block F := source_block .withheld_kept (keptLabel kept) release kept.start kept.stop kept.passage reason
    have of : block.OfRelease release := source_block_of
    exact displayed_of_release sentence (by simp [source_block]) (fun _ => by simp [source_block]) of
  | attribution reason =>
    exact displayed_of_release sentence (by simp [Integrity.withheld]) (fun _ => by simp [Integrity.withheld]) withheld_of
  | contradiction reason =>
    exact displayed_of_release sentence (by simp [Integrity.withheld]) (fun _ => by simp [Integrity.withheld]) withheld_of
  | unconfirmed reason unopposed =>
    exact displayed_of_release sentence (by simp [Integrity.withheld]) (fun against => (unopposed_not unopposed against).elim)
      withheld_of
  | confirmed admitted unopposed admits =>
    have clear := unopposed_not unopposed
    obtain ⟨notOwn, supported⟩ := admission_some admits
    obtain ⟨passages, is⟩ := source notOwn
    exact {
      quoted := fun passage nth quote => (sentence passage nth quote).elim
      confirmed := fun _ => ⟨item.text, passages, is, {
        supported := supported
        attributed := fun wrong => clear (.inr (.inl wrong))
        consistent := fun m held p contradicts => by
          cases held
          exact unopposed.consistent p (by rw [contradiction_eq]; exact contradicts)
        whole := fun cuts => clear (.inl cuts) }⟩
      withheld := fun _ against => (clear against).elim
      text := .inl ⟨by simp [Integrity.confirmed], rfl⟩
      labelled := fun _ other => (other rfl).elim }
  | labelled outcome reason unopposed looser refused shown =>
    have clear := unopposed_not unopposed
    have unconfirmed : outcome = .shown_own ∨ outcome = .shown_unconfirmed := by
      rw [shown]
      split
      · exact .inl rfl
      · exact .inr rfl
    exact {
      quoted := fun passage nth quote => (sentence passage nth quote).elim
      confirmed := fun confirmed => by
        rw [show (Integrity.labelled outcome _ reason).outcome = outcome from rfl] at confirmed
        rcases unconfirmed with other | other <;> cases other.symm.trans confirmed
      withheld := fun _ against => (clear against).elim
      text := .inl ⟨by rcases unconfirmed with rfl | rfl <;> simp [Integrity.labelled], rfl⟩
      labelled := fun other _ => by
        simp [displayMode, other] at looser }

theorem renderItem_displayed (item : Item) :
    Displayed platform release reply model index item
      (renderItem platform release reply model (((model.map (modelAnswers release reply)).map Prod.fst).getD []) index item).1 := by
  cases item with
  | quote id nth =>
    obtain ⟨one, of⟩ := @quote_of F platform.toLetters release id nth
    exact {
      quoted := fun _ _ _ => one
      confirmed := fun confirmed => by
        have confirmed : (quote (F := F) platform.toLetters release id nth).outcome = .shown_confirmed := confirmed
        rw [confirmed] at one
        exact absurd one (by decide)
      withheld := fun sentence => (sentence id nth rfl).elim
      text := .inr of
      labelled := fun _ _ => of }
  | from_source text passages =>
    exact rule_displayed (by simp) (fun _ => ⟨passages, rfl⟩) (sentence_ruled platform release model _ _)
  | own text => exact rule_displayed (by simp) (by simp) (sentence_ruled platform release model _ _)

/-! ### Counts -/

theorem counted (blocks : List (Block F)) (counts : Counts) (outcome : Outcome) :
    (blocks.foldl (fun counts block => counts.add block.outcome) counts).fetch = counts.fetch ∧
      (blocks.foldl (fun counts block => counts.add block.outcome) counts).of outcome =
        counts.of outcome + UInt32.ofNat (blocks.countP (·.outcome = outcome)) := by
  induction blocks generalizing counts with
  | nil => exact ⟨rfl, (UInt32.add_zero _).symm⟩
  | cons block blocks ih =>
    obtain ⟨fetch, later⟩ := ih (counts.add block.outcome)
    rw [List.foldl_cons]
    refine ⟨fetch, ?_⟩
    rw [later, Counts.add, List.countP_cons]
    by_cases same : block.outcome = outcome
    · subst same
      simp [UInt32.ofNat_add, UInt32.add_assoc, UInt32.add_comm 1]
    · simp [same, Ne.symm same]

theorem tally (blocks : List (Block F)) :
    (Outcome.all.map fun outcome => blocks.countP (·.outcome = outcome)).sum = blocks.length := by
  induction blocks with
  | nil => rfl
  | cons block blocks ih =>
    rw [List.length_cons, ← ih]
    cases is : block.outcome <;> simp [Outcome.all, List.countP_cons, is] <;> omega

theorem counts_sum (blocks : List (Block F)) (few : blocks.length < 2 ^ 32) :
    (((blocks.foldl (fun counts block => counts.add block.outcome) Counts.one_fetch).as_vec).map UInt32.toNat).sum =
      1 + blocks.length := by
  have each (outcome : Outcome) : ((blocks.foldl (fun counts block => counts.add block.outcome) Counts.one_fetch).of
      outcome).toNat = blocks.countP (·.outcome = outcome) := by
    have small : blocks.countP (·.outcome = outcome) < 2 ^ 32 := Nat.lt_of_le_of_lt List.countP_le_length few
    rw [(counted blocks _ outcome).2, Counts.one_fetch]
    simpa using UInt32.toNat_ofNat_of_lt' small
  rw [Counts.as_vec, List.map_cons, List.sum_cons, (counted blocks _ .quote_shown).1, List.map_map, ← tally blocks]
  congr 2
  exact List.map_congr_left fun outcome _ => each outcome

end

/-- What a rendering is: none of a release that is not verified, else one block for each item, in order, each as the rule
has it, and counts that are the fetch and the blocks of each outcome. -/
theorem display_ruled {F : Type} (platform : Platform F) (read : Read) (reply : Reply) (model : Option (Model F)) :
    (read.verification ≠ .verified → (invoke_with platform read reply model).2 = none) ∧
      (read.verification = .verified → ∃ rendered, (invoke_with platform read reply model).2 = some rendered ∧
        rendered.blocks.length = reply.items.length ∧
        (∀ index item block, reply.items[index]? = some item → rendered.blocks[index]? = some block →
          Displayed platform read.release reply model index item block) ∧
        (rendered.counts.fetch = 1 ∧ ∀ outcome, rendered.counts.of outcome =
          UInt32.ofNat (rendered.blocks.countP (·.outcome = outcome))) ∧
        (rendered.blocks.length < 2 ^ 32 →
          (rendered.counts.as_vec.map UInt32.toNat).sum = 1 + rendered.blocks.length)) := by
  refine ⟨fun unverified => ?_, fun verified => ?_⟩
  · rw [invoke_with]
    cases state : read.verification with
    | verified => exact (unverified state).elim
    | failed => rfl
    | missing => rfl
  · refine ⟨(render platform read.release reply model).1, by rw [invoke_with, verified], ?_, ?_, ?_, ?_⟩
    · simp [render]
    · intro index item block listed shown
      have is : (render platform read.release reply model).1.blocks[index]? =
          some (renderItem platform read.release reply model
            (((model.map (modelAnswers read.release reply)).map Prod.fst).getD []) index item).1 := by
        simp [render, List.getElem?_zipIdx, listed]
      cases is.symm.trans shown
      exact renderItem_displayed item
    · refine ⟨(counted _ _ .quote_shown).1, fun outcome => ?_⟩
      have held := (counted (render platform read.release reply model).1.blocks Counts.one_fetch outcome).2
      rw [show Counts.one_fetch.of outcome = 0 from rfl, UInt32.zero_add] at held
      exact held
    · exact counts_sum _

def fixed (answers : List (Answer (Option Nat))) : Model (Option Nat) where
  checker :=
    { name := "fixed-model"
      manifest := .null
      questions := [.supported, .contradicts]
      check_many := fun cases => (cases.map fun _ => answers, .null)
      evidence := .null }
  threshold := some 97
  temperature := some 100
  contradiction_threshold := some 90

def answerOf (question : Question) (basis : String) (probability : Option (Option Nat)) : Answer (Option Nat) :=
  { question := question, label := .yes, probability := probability, basis := basis, reason := "a fixed answer",
    detail := .null }

def oneKept (text : String) (marked : Bool) : Release where
  text := text.toList
  signed :=
    { display_mode := LABELLED
      passages := [⟨"p1", 0, byteLen text.toList⟩]
      markers := if marked then [⟨0, byteLen text.toList, "statement", "p1"⟩] else [] }

def shownAs (release : Release) (sentence : String) (model : Option (Model (Option Nat))) : List Outcome :=
  (render .hundredths release ⟨[.from_source sentence.toList ["p1"]]⟩ model).1.blocks.map Block.outcome

def dashed : Release := oneKept "One two three - four five six seven." true

def borne : Release := oneKept "Tom Reilly said \"we have acted on it\" today." false

theorem refused_counted (n : Nat) :
    (render .hundredths borne ⟨List.replicate n (.quote "" none)⟩ none).1.counts.of .quote_refused = UInt32.ofNat n := by
  have each : ∀ block ∈ (render .hundredths borne ⟨List.replicate n (.quote "" none)⟩ none).1.blocks,
      block.outcome = .quote_refused := by
    intro block listed
    obtain ⟨_, made, rfl⟩ := List.mem_map.mp listed
    obtain ⟨⟨item, index⟩, member, rfl⟩ := List.mem_map.mp made
    obtain rfl := List.eq_of_mem_replicate (List.fst_mem_of_mem_zipIdx member)
    exact (by decide : (quote (F := Option Nat) Letters.ascii borne "" none).outcome = .quote_refused)
  have held := (counted (render .hundredths borne ⟨List.replicate n (.quote "" none)⟩ none).1.blocks Counts.one_fetch
    .quote_refused).2
  rw [List.countP_eq_length.mpr fun block listed => decide_eq_true (each block listed),
    show Counts.one_fetch.of .quote_refused = 0 from rfl, UInt32.zero_add] at held
  refine held.trans ?_
  simp [render]

/-- Seven consecutive words of a kept span, one of them without a key; an answer under another stage's name; a contradiction
probability that is not a number; a quotation the text lacks after one it bears out; and a count past its last value. -/
theorem display_lapses :
    (shownAs dashed "One two three - four five six" none = [.shown_confirmed] ∧
        keys Letters.ascii (words "One two three - four five six".toList) =
          (keys Letters.ascii (words dashed.text)).take 7 ∧
        ¬Verbatim Letters.ascii dashed.text "One two three - four five six".toList) ∧
      (shownAs borne "Elsewhere." (some (fixed [answerOf .supported WHOLE_NAME none])) = [.shown_confirmed] ∧
        ¬Verbatim Letters.ascii "Elsewhere.".toList borne.text) ∧
      (shownAs borne "Tom Reilly acted." (some (fixed [answerOf .supported "fixed-model" (some (some 99)),
          answerOf .contradicts "fixed-model" (some none)])) = [.shown_confirmed] ∧
        Platform.hundredths.reaches (some 90) none = false) ∧
      (shownAs borne "Tom Reilly said \"we have acted on it\" and \"costs will fall fast\"."
          (some (fixed [answerOf .supported "fixed-model" (some (some 99))])) = [.shown_confirmed] ∧
        examined .hundredths borne "Tom Reilly said \"we have acted on it\" and \"costs will fall fast\".".toList =
          [.attributed true, .missing]) ∧
      (render .hundredths borne ⟨List.replicate (2 ^ 32) (.quote "" none)⟩ none).1.counts.of .quote_refused = 0 := by
  refine ⟨⟨by decide +kernel, by decide, fun whole => ?_⟩, ⟨by decide, fun whole => ?_⟩,
    ⟨by decide, rfl⟩, ⟨by decide, by decide⟩, ?_⟩
  · exact absurd (findRun_isSome.mpr whole) (by decide)
  · exact absurd (findRun_isSome.mpr whole) (by decide)
  · exact (refused_counted (2 ^ 32)).trans (by decide)

end CommonMeasure.Integrity
