import CommonMeasure.Integrity.Kinds
import CommonMeasure.Integrity.Sidecar

/-!
# The record holds no text

Neither a sentence of the reply nor the text of the release is in an invocation's detail, with no model or with any
sidecar's replies to any batch.
-/

namespace CommonMeasure.Integrity

open Json

section

variable {F : Type} {platform : Platform F} {release : Release} {added : Added}

/-! ### Passages -/

theorem phrased_passage_some {id : String} (known : (release.passage id).isSome) :
    Phrased platform release.signed added id := by
  obtain ⟨⟨p, part⟩, known⟩ := Option.isSome_iff_exists.mp known
  obtain ⟨listed, rfl, _⟩ := passage_some known
  exact .passage listed

theorem phrased_instead {sentence : List Char} {valid : List String} {entry : String × List Char}
    (found : instead platform.toLetters release sentence valid = some entry) : Phrased platform release.signed added entry.1 := by
  rcases instead_cases found with ⟨p, known⟩ | listed
  · exact phrased_passage_some (by rw [known]; rfl)
  · obtain ⟨p, member, named, _⟩ := mem_passages listed
    exact named ▸ .passage member

structure Cited.Recorded (platform : Platform F) (signed : Signed) (added : Added) (c : Cited) : Prop where
  valid : ∀ id ∈ c.valid, Phrased platform signed added id
  checked : ∀ id ∈ c.checked_against, Phrased platform signed added id

theorem cited_at_recorded (valid_at : List Nat) (invalid : List String) :
    (cited_at release valid_at invalid).Recorded platform release.signed added := by
  have ids : ∀ places : List Nat, ∀ id ∈ places.filterMap fun place => release.signed.passages[place]?.map Passage.id,
      Phrased platform release.signed added id := by
    intro places id listed
    obtain ⟨place, _, held⟩ := List.mem_filterMap.mp listed
    obtain ⟨p, found, rfl⟩ := Option.map_eq_some_iff.mp held
    exact .passage (List.mem_of_getElem? found)
  exact ⟨ids _, ids _⟩

theorem cited_recorded (ids : List String) : (cited release ids).Recorded platform release.signed added :=
  cited_at_recorded _ _

theorem reply_passages_recorded (reply : Reply) :
    (reply_passages release reply).Recorded platform release.signed added := by
  rw [reply_passages]
  split_ifs
  · exact cited_at_recorded _ _
  · exact cited_recorded _

theorem phrased_joined {c : Cited} (recorded : c.Recorded platform release.signed added) :
    Phrased platform release.signed added (String.intercalate ", " c.checked_against) :=
  phrased_intercalate (.phrase (by simp [PHRASES])) recorded.checked

theorem phrased_markerLabel {m : KeptSpan} (listed : m ∈ release.signed.markers) :
    Phrased platform release.signed added (markerLabel m) :=
  .append (.append (.append (.kept listed) (.phrase (by simp [PHRASES]))) (.keptPassage listed)) (.phrase (by simp [PHRASES]))

theorem recordAnswer_recorded {model : Model F} {c : Cited} {answer : Answer F}
    (cited : c.Recorded platform release.signed added) (recorded : answer.Recorded platform release.signed added) :
    (recordAnswer platform model c answer).Recorded platform release.signed added where
  basis := recorded.basis
  reason := recorded.reason
  detail := by
    have allowed : ∀ name ∈ KEYS, (recordAllowed platform release.signed added).key name := fun _ => .inl
    have raw : ∀ o : Option F, (Value.object (o.elim (membersOf answer.detail) fun p =>
        setMember (setMember (membersOf answer.detail) "p_raw" (platform.float p)) "temperature"
          (platform.float model.temperature))).Within (recordAllowed platform release.signed added) := by
      intro o
      cases o with
      | none => exact recorded.detail.members
      | some p =>
        exact (recorded.detail.members.set (allowed _ (by simp [KEYS])) within_float).set (allowed _ (by simp [KEYS]))
          within_float
    have checked := ((raw (if answer.question = .supported then answer.probability else none)).set
      (allowed "cited_passages" (by simp [KEYS])) (within_strings.mpr fun id listed => .phrased (cited.valid id listed))).set
      (allowed "checked_against" (by simp [KEYS])) (within_strings.mpr fun id listed => .phrased (cited.checked id listed))
    rw [recordAnswer]
    dsimp only
    generalize Option.elim (if answer.question = .supported then answer.probability else none) _ _ = members at checked ⊢
    by_cases invalid : c.invalid = []
    · rw [if_pos invalid]
      exact checked
    · rw [if_neg invalid]
      exact checked.set (allowed "invalid_cited_sha256" (by simp [KEYS])) (within_strings.mpr (by simp [Clean.digest]))

theorem notAsked_recorded (c : Cited) : (notAsked platform c).Recorded platform release.signed added where
  basis := .word (by simp [notAsked, CITED_NAME, WORDS])
  reason := by
    rw [notAsked]
    dsimp only
    split_ifs
    · exact .phrase (by simp [PHRASES])
    · exact .append (.append (.phrase (by simp [PHRASES])) (.count _)) (.phrase (by simp [PHRASES]))
  detail := by simp [notAsked, hashes, KEYS, Clean.digest]

theorem answersOf_recorded {model : Model F} {c : Cited} {answered : Option (List (Answer F))}
    (cited : c.Recorded platform release.signed added)
    (recorded : ∀ answers ∈ answered, ∀ a ∈ answers, a.Recorded platform release.signed added) :
    ∀ a ∈ answersOf platform model c answered, a.Recorded platform release.signed added := by
  intro a listed
  cases answered with
  | none =>
    obtain rfl := List.mem_singleton.mp listed
    exact notAsked_recorded c
  | some answers =>
    obtain ⟨answer, held, rfl⟩ := List.mem_map.mp listed
    exact recordAnswer_recorded cited (recorded answers rfl answer held)

theorem clean_itemId (index : Nat) : Clean platform release.signed added (itemId index) :=
  .phrased (.append (.phrase (by simp [PHRASES])) (.count index))

structure Asked.Recorded (platform : Platform F) (signed : Signed) (added : Added) (asked : Asked F) : Prop where
  cited : asked.cited.Recorded platform signed added
  answers : ∀ a ∈ asked.answers, a.Recorded platform signed added
  cut : Phrased platform signed added asked.cut_reason

theorem ask_recorded {model : Option (Model F)} {answered : Option (List (Answer F))} {index : Nat} {own : Bool}
    {text : List Char} {c : Cited} (cited : c.Recorded platform release.signed added)
    (recorded : ∀ answers ∈ answered, ∀ a ∈ answers, a.Recorded platform release.signed added) :
    (ask platform release model answered index own text c).Recorded platform release.signed added := by
  have labels : ∀ marker ∈ (wholeCase release index text).markers, Phrased platform release.signed added marker.label := by
    intro marker listed
    obtain ⟨m, held, rfl⟩ := List.mem_map.mp listed
    exact phrased_markerLabel held
  have kept : (KeepIntact.check platform (wholeCase release index text)).1.Recorded platform release.signed added :=
    keep_intact_recorded labels
  refine ⟨cited, ?_, kept.reason⟩
  simp only [ask, List.mem_append, List.mem_cons, List.not_mem_nil, or_false]
  rintro a ((rfl | rfl | rfl | rfl) | listed)
  · exact six_word_run_recorded (clean_itemId index)
  · exact whole_recorded
  · exact attribution_recorded
  · exact kept
  · cases model with
    | none => cases listed
    | some model => exact answersOf_recorded cited recorded a listed

theorem clean_outcome (outcome : Outcome) : Clean platform release.signed added outcome.as_str :=
  .word (by cases outcome <;> simp [Outcome.as_str, WORDS])

theorem phrased_kind (asked : Asked F) : Phrased platform release.signed added asked.kind :=
  .phrase (by unfold Asked.kind; split <;> simp [PHRASES])

structure Block.Recorded (platform : Platform F) (signed : Signed) (added : Added) (block : Block F) : Prop where
  passage : ∀ id ∈ block.passage, Phrased platform signed added id
  sources : ∀ source ∈ block.sources, Phrased platform signed added source.passage
  reason : Phrased platform signed added block.reason
  answers : ∀ a ∈ block.answers, a.Recorded platform signed added

theorem withheld_recorded {outcome : Outcome} {asked : Asked F} {reason : String}
    (recorded : asked.Recorded platform release.signed added) (said : Phrased platform release.signed added reason) :
    (withheld platform release outcome asked reason).Recorded platform release.signed added where
  passage := by
    intro id held
    obtain ⟨entry, found, rfl⟩ := Option.map_eq_some_iff.mp held
    exact phrased_instead found
  sources := fun _ listed => nomatch listed
  reason := by
    rw [withheld]
    refine said.append ?_
    split_ifs
    · exact .phrase (by simp [PHRASES])
    · exact .phrase (by simp [PHRASES])
  answers := recorded.answers

theorem confirmed_recorded {model : Option (Model F)} {asked : Asked F} {admitted : Admitted F}
    (recorded : asked.Recorded platform release.signed added) :
    (confirmed platform release model asked admitted).Recorded platform release.signed added where
  passage := fun _ held => nomatch held
  sources := by
    intro source listed
    simp only [confirmed] at listed
    split_ifs at listed
    · obtain ⟨entry, found, rfl⟩ := List.mem_map.mp listed
      exact phrased_instead (Option.mem_toList.mp found)
    · obtain ⟨id, valid, held⟩ := List.mem_filterMap.mp listed
      obtain ⟨⟨p, text⟩, known, rfl⟩ := Option.map_eq_some_iff.mp held
      exact .passage (passage_some known).1
  reason := by
    unfold confirmed
    cases admitted with
    | verbatim => exact .phrase (by simp [PHRASES])
    | model p =>
      exact .append (.append (.append (.append (.phrase (by simp [PHRASES])) (.rounded p)) (.phrase (by simp [PHRASES])))
        (.probability _)) (.phrase (by simp [PHRASES]))
  answers := recorded.answers

theorem labelled_recorded {outcome : Outcome} {asked : Asked F} {reason : String}
    (recorded : asked.Recorded platform release.signed added) (said : Phrased platform release.signed added reason) :
    (labelled outcome asked reason).Recorded platform release.signed added where
  passage := fun _ held => nomatch held
  sources := fun _ listed => nomatch listed
  reason := said
  answers := recorded.answers

theorem phrased_unconfirmed_why {model : Option (Model F)} {asked : Asked F}
    (recorded : asked.Recorded platform release.signed added) :
    Phrased platform release.signed added (unconfirmed_why platform model asked) := by
  have reason : ∀ {P : Answer F → Bool} {a : Answer F}, asked.answers.find? P = some a →
      Phrased platform release.signed added a.reason := fun found =>
        (recorded.answers _ (List.mem_of_find?_eq_some found)).reason
  rw [unconfirmed_why]
  split
  · exact .phrase (by simp [PHRASES])
  split_ifs
  · cases found : asked.answers.find? fun a => a.basis = CITED_NAME with
    | none => exact .phrase (by simp [PHRASES])
    | some a => exact reason found
  split
  · rename_i a found
    split
    · exact .append (.append (.append (.append (.phrase (by simp [PHRASES])) (.rounded _)) (.phrase (by simp [PHRASES])))
        (phrased_joined recorded.cited)) (.phrase (by simp [PHRASES]))
    · exact reason found
  · exact .phrase (by simp [PHRASES])

theorem phrased_contradictionNote {model : Option (Model F)} {asked : Asked F}
    (recorded : asked.Recorded platform release.signed added) :
    Phrased platform release.signed added (contradictionNote platform model asked) := by
  unfold contradictionNote
  split
  · exact .phrase (by simp [PHRASES])
  split
  · exact .phrase (by simp [PHRASES])
  split
  · exact .append (.append (.append (.append (.append (.phrase (by simp [PHRASES])) (phrased_joined recorded.cited))
      (.phrase (by simp [PHRASES]))) (.rounded _)) (.phrase (by simp [PHRASES]))) (.probability _)
  · exact .phrase (by simp [PHRASES])

theorem sentence_block_recorded {model : Option (Model F)} {strict : Bool} {asked : Asked F}
    (recorded : asked.Recorded platform release.signed added) :
    (sentence_block platform release model strict asked).Recorded platform release.signed added := by
  have whole_ : ∀ {reason : String}, Phrased platform release.signed added reason →
      Phrased platform release.signed added ("the " ++ asked.kind ++ " sentence was not shown: " ++ reason) := fun clean =>
    .append (.append (.append (.phrase (by simp [PHRASES])) (phrased_kind asked)) (.phrase (by simp [PHRASES]))) clean
  have why : Phrased platform release.signed added (unconfirmed_why platform model asked) := phrased_unconfirmed_why recorded
  rw [sentence_block]
  split
  · rename_i kept cut
    obtain ⟨place, _, found⟩ := Option.bind_eq_some_iff.mp cut
    refine ⟨?_, fun _ listed => (by cases listed), (whole_ recorded.cut).append (.phrase (by simp [PHRASES])), recorded.answers⟩
    rintro _ ⟨⟩
    exact .keptPassage (List.mem_of_getElem? found)
  split
  · rename_i reason misattributed
    obtain ⟨a, found, rfl⟩ := Option.map_eq_some_iff.mp misattributed
    exact withheld_recorded recorded
      ((whole_ (recorded.answers a (List.mem_of_find?_eq_some found)).reason).append (.phrase (by simp [PHRASES])))
  split
  · refine withheld_recorded recorded (.append (.append (.append (.append (.append (.append (.append (.append (.append
      (.phrase ?_) (phrased_kind asked)) (.phrase ?_)) (.phrase ?_)) (phrased_joined recorded.cited)) (.phrase ?_)) (.rounded _))
      (.phrase ?_)) (.probability _)) (.phrase ?_))
    all_goals simp [PHRASES]
  split
  · exact confirmed_recorded recorded
  split
  · refine withheld_recorded recorded ?_
    split
    · exact .append (.phrase (by simp [PHRASES])) (.phrase (by simp [PHRASES]))
    · exact .append (.append (.phrase (by simp [PHRASES])) why) (.phrase (by simp [PHRASES]))
  split
  · exact labelled_recorded recorded (.append (.phrase (by simp [PHRASES])) (phrased_contradictionNote recorded))
  · exact labelled_recorded recorded (.append (.phrase (by simp [PHRASES])) why)

theorem sentenceRecord_recorded {index : Nat} {asked : Asked F} {block : Block F}
    (recorded : asked.Recorded platform release.signed added) (shown : block.Recorded platform release.signed added) :
    (sentenceRecord platform index asked block).Within (recordAllowed platform release.signed added) := by
  have passage : (optional block.passage).Within (recordAllowed platform release.signed added) :=
    within_elim fun id held => .string (.phrased (shown.passage id held))
  have cited : (Value.object (if asked.own then []
      else [("cited_passages", strings asked.cited.valid),
        ("invalid_cited_sha256", hashes platform asked.cited.invalid)])).Within
        (recordAllowed platform release.signed added) := by
    split_ifs
    · exact Value.within_object_nil
    · simpa [KEYS, hashes, Clean.digest] using fun id listed => Clean.phrased (recorded.cited.valid id listed)
  rw [sentenceRecord, Value.within_object_append]
  refine ⟨?_, cited⟩
  have answers : (Value.array (block.answers.map (Answer.value platform))).Within
      (recordAllowed platform release.signed added) :=
    .array trivial fun value listed => by
      obtain ⟨a, held, rfl⟩ := List.mem_map.mp listed
      exact (shown.answers a held).value
  have sources : (strings (block.sources.map Source.passage)).Within (recordAllowed platform release.signed added) :=
    within_strings.mpr (List.forall_mem_map.mpr fun source listed => .phrased (shown.sources source listed))
  simp [KEYS, passage, answers, sources, Clean.phrased (phrased_kind asked), clean_outcome, Clean.digest,
    Clean.phrased shown.reason]

theorem phrased_quote (id : String) (nth : Option Nat) :
    Phrased platform release.signed added (quote (F := F) platform.toLetters release id nth).reason := by
  have expanded : ∀ (kept : KeptSpan) (what : String), what ∈ PHRASES →
      Phrased platform release.signed added (kept_block (F := F) release kept what).reason := fun _ _ listed =>
    .append (.append (.phrase (by simp [PHRASES])) (.phrase listed)) (.phrase (by simp [PHRASES]))
  unfold quote
  split
  · split
    · split
      · exact expanded _ _ (by simp [PHRASES])
      · exact .phrase (by simp [PHRASES, source_block])
    · exact .phrase (by simp [PHRASES, refused])
  · rename_i p text known
    split
    · exact .append (.append (.append (.phrase (by simp [PHRASES])) (phrased_passage_some (by rw [known]; rfl)))
        (.phrase (by simp [PHRASES]))) (.count _)
    · split
      · exact expanded _ _ (by simp [PHRASES])
      · exact .phrase (by simp [PHRASES, source_block])

theorem shown_passage_recorded (block : Block F) :
    (shown_passage release block).Within (recordAllowed platform release.signed added) := by
  rw [shown_passage]
  split
  · split_ifs with known
    · exact .string (.phrased (phrased_passage_some known))
    · exact .null
  · exact .null

theorem quoteRecord_recorded (index : Nat) (id : String) (nth : Option Nat) :
    (quoteRecord platform release index id nth (quote platform.toLetters release id nth)).Within
      (recordAllowed platform release.signed added) := by
  have counted : (nth.elim .null num).Within (recordAllowed platform release.signed added) := within_elim fun _ _ => .number
  have kind : Clean platform release.signed added "quote" := .word (by simp [WORDS])
  have reason : Clean platform release.signed added (quote (F := F) platform.toLetters release id nth).reason :=
    .phrased (phrased_quote id nth)
  rw [quoteRecord]
  split_ifs with known
  · simp [KEYS, counted, kind, clean_outcome, shown_passage_recorded, reason, Clean.phrased (phrased_passage_some known)]
  · simp [KEYS, counted, kind, clean_outcome, shown_passage_recorded, reason, Clean.digest]

theorem renderItem_recorded {reply : Reply} {model : Option (Model F)} {answered : List (Nat × List (Answer F))}
    (recorded : ∀ entry ∈ answered, ∀ a ∈ entry.2, a.Recorded platform release.signed added) (index : Nat) (item : Item) :
    (renderItem platform release reply model answered index item).2.Within (recordAllowed platform release.signed added) := by
  have own : ∀ answers ∈ (answered.find? (·.1 = index)).map Prod.snd, ∀ a ∈ answers,
      a.Recorded platform release.signed added := by
    intro answers held a listed
    obtain ⟨entry, found, rfl⟩ := Option.map_eq_some_iff.mp held
    exact recorded entry (List.mem_of_find?_eq_some found) a listed
  have sentence : ∀ (strict self : Bool) (text : List Char) (c : Cited), c.Recorded platform release.signed added →
      (sentenceRecord platform index
        (ask platform release model ((answered.find? (·.1 = index)).map Prod.snd) index self text c)
        (sentence_block platform release model strict
          (ask platform release model ((answered.find? (·.1 = index)).map Prod.snd) index self text c))).Within
        (recordAllowed platform release.signed added) := by
    intro strict self text c cited
    exact sentenceRecord_recorded (ask_recorded cited own) (sentence_block_recorded (ask_recorded cited own))
  cases item with
  | quote id nth => exact quoteRecord_recorded index id nth
  | from_source text ids => exact sentence _ _ _ _ (cited_recorded ids)
  | own text => exact sentence _ _ _ _ (reply_passages_recorded reply)

structure ModelChecker.Recorded (platform : Platform F) (signed : Signed) (added : Added) (checker : ModelChecker F) :
    Prop where
  manifest : checker.manifest.Within (recordAllowed platform signed added)
  evidence : checker.evidence.Within (recordAllowed platform signed added)
  answers : ∀ cases, ∀ answers ∈ (checker.check_many cases).1, ∀ a ∈ answers, a.Recorded platform signed added
  batch : ∀ cases, (checker.check_many cases).2.Within (recordAllowed platform signed added)

theorem modelAnswers_recorded {model : Model F} (recorded : model.checker.Recorded platform release.signed added)
    (reply : Reply) :
    (∀ entry ∈ (modelAnswers release reply model).1, ∀ a ∈ entry.2, a.Recorded platform release.signed added) ∧
      (modelAnswers release reply model).2.Within (recordAllowed platform release.signed added) := by
  rw [modelAnswers]
  dsimp only
  split_ifs
  · exact ⟨fun _ listed => (nomatch listed), recorded.evidence⟩
  · refine ⟨fun entry listed => ?_, recorded.batch _⟩
    exact recorded.answers _ entry.2 (List.of_mem_zip listed).2

theorem within_merged {members more : List (String × Value)} {allowed : Allowed}
    (within : (Value.object members).Within allowed) (also : (Value.object more).Within allowed) :
    (Value.object (more.foldl (fun members (key, value) => setMember members key value) members)).Within allowed := by
  induction more generalizing members with
  | nil => exact within
  | cons member more ih =>
    rw [Value.within_object_cons] at also
    exact ih (within.set also.1.1 also.1.2) also.2

theorem modelValue_recorded {model : Model F} (recorded : model.checker.Recorded platform release.signed added)
    {evidence : Value} (held : evidence.Within (recordAllowed platform release.signed added)) :
    (modelValue platform model evidence).Within (recordAllowed platform release.signed added) := by
  refine within_merged ?_ held.members
  simp [KEYS, recorded.manifest, clean_question]

theorem stagesValue_recorded : stagesValue.Within (recordAllowed platform release.signed added) := by
  have word : ∀ s ∈ WORDS, Clean platform release.signed added s := fun _ => .word
  refine .array trivial (List.forall_mem_map.mpr fun (name, question) listed => ?_)
  have named : name ∈ WORDS := by
    simp only [List.mem_cons, Prod.mk.injEq, List.not_mem_nil, or_false] at listed
    rcases listed with ⟨rfl, _⟩ | ⟨rfl, _⟩ | ⟨rfl, _⟩ | ⟨rfl, _⟩
    · simp [six_word_name, WORDS]
    · simp [WHOLE_NAME, WORDS]
    · simp [Attribution.NAME, WORDS]
    · simp [KeepIntact.NAME, WORDS]
  simp [KEYS, word name named, clean_question]

theorem count_names_recorded : (strings Counts.NAMES).Within (recordAllowed platform release.signed added) := by
  refine within_strings.mpr fun name listed => ?_
  rcases List.mem_cons.mp listed with rfl | listed
  · exact .word (by simp [WORDS])
  · obtain ⟨outcome, _, rfl⟩ := List.mem_map.mp listed
    exact clean_outcome outcome

theorem render_recorded {reply : Reply} {model : Option (Model F)}
    (recorded : ∀ m ∈ model, m.checker.Recorded platform release.signed added) :
    (render platform release reply model).2.Within (recordAllowed platform release.signed added) := by
  have answered : ∀ entry ∈ ((model.map (modelAnswers release reply)).map Prod.fst).getD [], ∀ a ∈ entry.2,
      a.Recorded platform release.signed added := by
    cases model with
    | none => exact fun _ listed => absurd listed List.not_mem_nil
    | some m => exact (modelAnswers_recorded (recorded m rfl) reply).1
  have counts : ∀ counts : Counts, (Value.array (counts.as_vec.map fun n => num n.toNat)).Within
      (recordAllowed platform release.signed added) := fun counts => .array trivial (List.forall_mem_map.mpr fun _ _ => .number)
  have shown : Clean platform release.signed added (displayMode release) :=
    .word (by unfold displayMode; split <;> simp [LABELLED, STRICT, WORDS])
  have verified : Clean platform release.signed added "verified" := .word (by simp [WORDS])
  unfold render
  dsimp only
  simp only [Value.within_object_cons, recordAllowed_key, Value.within_string, recordAllowed_string]
  refine ⟨⟨?_, verified⟩, ⟨?_, .mode⟩, ⟨?_, shown⟩, ⟨?_, stagesValue_recorded⟩, ⟨?_, ?modelled⟩, ⟨?_, .bool⟩, ⟨?_, ?items⟩,
    ⟨?_, count_names_recorded⟩, ⟨?_, counts _⟩, Value.within_object_nil⟩
  case items =>
    refine .array trivial fun value listed => ?_
    obtain ⟨_, held, rfl⟩ := List.mem_map.mp listed
    obtain ⟨⟨item, index⟩, _, rfl⟩ := List.mem_map.mp held
    exact renderItem_recorded answered index item
  case modelled =>
    cases model with
    | none => exact .null
    | some m => exact modelValue_recorded (recorded m rfl) (modelAnswers_recorded (recorded m rfl) reply).2
  all_goals simp [KEYS]

theorem invoke_with_recorded {read : Read} {reply : Reply} {model : Option (Model F)}
    (recorded : ∀ m ∈ model, m.checker.Recorded platform read.release.signed added) :
    (invoke_with platform read reply model).1.Within (recordAllowed platform read.release.signed added) := by
  have missing : Clean platform read.release.signed added "missing" := .word (by simp [WORDS])
  have failed : Clean platform read.release.signed added "failed" := .word (by simp [WORDS])
  rw [invoke_with]
  split
  · exact render_recorded recorded
  · simp [KEYS, missing]
  · simp [KEYS, failed]

end

/-! ### The sidecar's -/

namespace Sidecar

def NAMES : List String :=
  DETAIL_KEYS ++ IDENTITIES ++ ["endpoint_origin", "hello", "bye", "outcome", "gaps", "timings", "hello_ms", "total_ms",
    "egress", "provider", "origins", "confinement", "admitting_term", "admitted", "question_text_sha256", "request_sha256",
    "sentence_sha256", "case_count", "usage", "cost", "reported", "gap", "calibration"]

def TEXTS : List String :=
  ["A", "B", "C", "completed", "not_run", "declared", "sidecar-model/1"]

def REPORTED : String := "sidecar_probability_reported"

section

variable {F : Type} {platform : Boundary F} {signed : Signed} {c : ConfiguredModel F} {x : Exchange}

inductive Configured (c : ConfiguredModel F) (s : String) : Prop
  | manifest {p : Prepared} : c.prepared = .ok p → p.identity.Occurs s → Configured c s
  | term {p : Prepared} {term : Value} : c.prepared = .ok p → p.admitting_term = some term → term.Occurs s → Configured c s
  | calibration : c.calibration.Occurs s → Configured c s

/-- A string of the checker's own: fixed, configured, or within the bounds on what a hello may say of the process. -/
inductive Stated (platform : Boundary F) (c : ConfiguredModel F) (s : String) : Prop
  | fixed : s ∈ TEXTS → Stated platform c s
  | fault {fault : Fault} : s = fault.as_str → Stated platform c s
  | configured : Configured c s → Stated platform c s
  | question {p : Prepared} : c.prepared = .ok p → s ∈ p.questions → Stated platform c s
  | network {p : Prepared} {n : Network} : c.prepared = .ok p → p.network = some n → s = n.provider ∨ s ∈ n.origins →
    Stated platform c s
  | identity {key : String} : key ∈ IDENTITIES → identity key s = true → Stated platform c s
  | origin {endpoint : String} : platform.origin endpoint = some s → Stated platform c s

def stated (platform : Boundary F) (c : ConfiguredModel F) : Added where
  key s := s ∈ NAMES ∨ Configured c s
  string := Stated platform c
  reason s := s = REPORTED ∨ ∃ fault : Fault, s = fault.as_str

@[simp] theorem stated_key {s : String} : (stated platform c).key s ↔ s ∈ NAMES ∨ Configured c s := Iff.rfl

theorem within_detail (v : Value) :
    (filter_detail platform v).1.Within (recordAllowed platform.toPlatform signed (stated platform c)) :=
  (filter_detail_within v).mono (fun name listed => .inr (.inl (by simp [NAMES, show name ∈ DETAIL_KEYS from listed])))
    (fun s listed => .added (.fixed (List.mem_append_left _ (show s ∈ ["A", "B", "C"] from listed)))) fun _ _ => trivial

theorem isStrings_iff {asked : List String} {value : Value} : isStrings asked value = true ↔ value = strings asked := by
  unfold isStrings strings
  split
  · rename_i items
    rw [decide_eq_true_eq, Value.array.injEq]
    constructor
    · intro same
      refine List.ext_getElem? fun place => ?_
      have here := congrArg (·[place]?) same
      simp only [List.getElem?_map] at here ⊢
      cases item : items[place]? with
      | none => simpa [item] using here
      | some item' =>
        cases s : asked[place]? with
        | none => simp [item, s] at here
        | some s' =>
          have string : item'.asStr = some s' := by simpa [item, s] using here
          cases item' <;> simp_all [Value.asStr]
    · rintro rfl
      simp [Value.asStr]
  · rename_i other
    exact ⟨fun held => (Bool.false_ne_true held).elim, fun is => (other _ is).elim⟩

theorem greet_recorded {p : Prepared} (prepared : c.prepared = .ok p) {first : Received} {hello : Value × List Fault}
    (greeted : greet platform p first = .ok hello) :
    hello.1.Within (recordAllowed platform.toPlatform signed (stated platform c)) := by
  unfold greet at greeted
  split at greeted
  · cases greeted
  · cases greeted
  split at greeted
  · cases greeted
  · rename_i raw found
    cases greeted
    have asked := (Option.filter_eq_some_iff.mp found).2
    simp only [Bool.and_eq_true] at asked
    have few : p.questions.length ≤ MAX_CHUNKS := by
      rcases p.asks with is | is <;> rw [is] <;> decide
    refine (filter_hello_within (isStrings_iff.mp asked.2) few).mono ?_ ?_ fun _ _ => trivial
    · intro name listed
      have named : name ∈ KEYS ∨ name ∈ NAMES := by
        simp only [helloAllowed, List.mem_append, List.mem_cons, List.not_mem_nil, or_false] at listed
        rcases listed with (listed | listed) | rfl | rfl
        · simp [NAMES, listed]
        · simp [NAMES, listed]
        · simp [KEYS]
        · simp [NAMES]
      exact named.imp_right .inl
    · rintro s (letter | question | ⟨key, known, _, bounded⟩ | ⟨endpoint, _, origin⟩)
      · exact .added (.fixed (List.mem_append_left _ letter))
      · exact .added (.question prepared question)
      · exact .added (.identity known bounded)
      · exact .added (.origin origin)

theorem run_recorded {p : Prepared} (prepared : c.prepared = .ok p) (cases : List Case) (x : Exchange) :
    (run platform p cases x).hello.Within (recordAllowed platform.toPlatform signed (stated platform c)) ∧
      (run platform p cases x).bye.Within (recordAllowed platform.toPlatform signed (stated platform c)) := by
  unfold run
  split_ifs
  · exact ⟨.null, .null⟩
  split
  · exact ⟨.null, .null⟩
  split
  · exact ⟨.null, .null⟩
  rename_i greeted
  have hello : Value.Within (recordAllowed platform.toPlatform signed (stated platform c)) _ := greet_recorded prepared greeted
  split_ifs
  · dsimp only
    split
    · exact ⟨hello, .null⟩
    split
    · exact ⟨hello, .null⟩
    split
    · exact ⟨hello, .null⟩
    · exact ⟨hello, within_detail _⟩
  · exact ⟨hello, .null⟩

theorem attempt_recorded (x : Exchange) (cases : List Case) :
    (attempt platform c.prepared x cases).hello.Within (recordAllowed platform.toPlatform signed (stated platform c)) ∧
      (attempt platform c.prepared x cases).bye.Within (recordAllowed platform.toPlatform signed (stated platform c)) := by
  unfold attempt
  split
  · exact ⟨.null, .null⟩
  · rename_i p prepared
    split
    · exact ⟨.null, .null⟩
    · exact run_recorded prepared cases x

theorem clean_fault (fault : Fault) : Clean platform.toPlatform signed (stated platform c) fault.as_str :=
  .added (.fault rfl)

theorem clean_text {s : String} (listed : s ∈ TEXTS) : Clean platform.toPlatform signed (stated platform c) s :=
  .added (.fixed listed)

theorem readReply_recorded (questions : List Question) (reply : Value) :
    ∀ a ∈ (readReply platform questions reply).1, a.Recorded platform.toPlatform signed (stated platform c) := by
  intro a listed
  obtain ⟨question, _, rfl⟩ := List.mem_map.mp listed
  refine ⟨clean_text (by simp [answered, NAME, TEXTS]), ?_, ?_⟩
  · rw [answered]
    cases validate_reply platform reply (.contradicts ∈ questions) with
    | none => exact .reason (.inl rfl)
    | some fault => exact .reason (.inr ⟨fault, rfl⟩)
  · have latency : ((reply.get "latency_ms").asU64.elim .null num).Within
        (recordAllowed platform.toPlatform signed (stated platform c)) := within_elim fun _ _ => .number
    simp [answered, NAMES, NUMERIC, DETAIL_KEYS, latency, within_detail]

theorem check_many_answers (cases : List Case) : ∀ answers ∈ (check_many platform c.prepared x cases).1, ∀ a ∈ answers,
    a.Recorded platform.toPlatform signed (stated platform c) := by
  intro answers listed a held
  simp only [check_many] at listed
  split at listed
  · obtain ⟨_, from_, rfl⟩ := List.mem_map.mp listed
    obtain ⟨reply, _, rfl⟩ := List.mem_map.mp from_
    exact readReply_recorded _ reply a held
  · rename_i fault _
    obtain ⟨_, _, rfl⟩ := List.mem_map.mp listed
    obtain ⟨question, _, rfl⟩ := List.mem_map.mp held
    exact ⟨clean_text (by simp [unanswered, NAME, TEXTS]), .reason (.inr ⟨fault, rfl⟩), .null⟩

theorem network_recorded {p : Prepared} {n : Network} (found : network c.prepared = some (p, n)) :
    c.prepared = .ok p ∧ p.network = some n := by
  unfold network at found
  cases prepared : c.prepared with
  | error => simp [prepared, Except.toOption] at found
  | ok held =>
    rw [prepared] at found
    obtain ⟨n', is, same⟩ := Option.map_eq_some_iff.mp (show held.network.map (held, ·) = some (p, n) from found)
    cases same
    exact ⟨rfl, is⟩

theorem egress_recorded {p : Prepared} {n : Network} (found : network c.prepared = some (p, n)) (cases : List Case)
    {hello bye : Value} (greeted : hello.Within (recordAllowed platform.toPlatform signed (stated platform c)))
    (left_ : bye.Within (recordAllowed platform.toPlatform signed (stated platform c))) :
    (egress platform p n x cases hello bye).Within (recordAllowed platform.toPlatform signed (stated platform c)) := by
  obtain ⟨prepared, networked⟩ := network_recorded found
  have term : (p.admitting_term.getD .null).Within (recordAllowed platform.toPlatform signed (stated platform c)) := by
    cases held : p.admitting_term with
    | none => exact .null
    | some term =>
      exact Value.within_of_occurs term (fun s occurs => .inr (.inr (.term prepared held occurs)))
        (fun s occurs => .added (.configured (.term prepared held occurs))) fun _ => trivial
  have provider : Clean platform.toPlatform signed (stated platform c) n.provider :=
    .added (.network prepared networked (.inl rfl))
  have origins : ∀ s ∈ n.origins, Clean platform.toPlatform signed (stated platform c) s := fun s listed =>
    .added (.network prepared networked (.inr listed))
  have requests : (Value.array (cases.map (requestRecord platform))).Within
      (recordAllowed platform.toPlatform signed (stated platform c)) := by
    refine .array trivial (List.forall_mem_map.mpr fun case_ _ => ?_)
    simp [requestRecord, NAMES, digest_of, Clean.digest, KEYS]
  have model := greeted.get "model"
  have declared : Clean platform.toPlatform signed (stated platform c) "declared" := clean_text (by simp [TEXTS])
  simp only [egress, Value.within_object_cons, recordAllowed_key, Value.within_string, recordAllowed_string, within_strings]
  refine ⟨⟨?_, provider⟩, ⟨?_, origins⟩, ⟨?_, declared⟩, ⟨?_, term⟩, ⟨?_, .bool⟩, ⟨?_, model⟩, ⟨?_, .digest _⟩, ⟨?_, .null⟩,
    ⟨?_, requests⟩, ⟨?_, within_num⟩, ⟨?_, left_⟩, ⟨?_, .null⟩, Value.within_object_nil⟩
  all_goals simp [KEYS, NAMES, DETAIL_KEYS, NUMERIC]

theorem check_many_evidence (cases : List Case) : (check_many platform c.prepared x cases).2.Within
    (recordAllowed platform.toPlatform signed (stated platform c)) := by
  obtain ⟨hello, bye⟩ := @attempt_recorded _ platform signed c x cases
  have outcome : ∀ failed : Bool, Clean platform.toPlatform signed (stated platform c)
      (if failed then "failed" else "completed") := by
    intro failed
    split
    · exact .word (by simp [WORDS])
    · exact clean_text (by simp [TEXTS])
  have gaps : ∀ faults : List Fault,
      (strings (((faults.map Fault.as_str).mergeSort fun a b => decide (a ≤ b)).dedup)).Within
        (recordAllowed platform.toPlatform signed (stated platform c)) := by
    intro faults
    refine within_strings.mpr fun s listed => ?_
    obtain ⟨fault, _, rfl⟩ := List.mem_map.mp (List.mem_mergeSort.mp (List.mem_dedup.mp listed))
    exact clean_fault fault
  have waited : ∀ ms : Option Nat, (ms.elim .null num).Within
      (recordAllowed platform.toPlatform signed (stated platform c)) := fun _ => within_elim fun _ _ => .number
  simp only [check_many, Value.within_object_append, Value.within_object_cons, recordAllowed_key, Value.within_string,
    recordAllowed_string]
  refine ⟨⟨⟨?_, hello⟩, ⟨?_, bye⟩, ⟨?_, outcome _⟩, ⟨?_, gaps _⟩, ⟨?_, ⟨?_, waited _⟩, ⟨?_, within_num⟩,
    Value.within_object_nil⟩, Value.within_object_nil⟩, ?egress⟩
  case egress =>
    refine Value.within_object.mpr (List.forall_mem_map.mpr fun pair found => ?_)
    obtain ⟨p, n⟩ := pair
    refine ⟨?_, ?_⟩
    · simp [NAMES]
    · exact egress_recorded (Option.mem_toList.mp found) cases hello bye
  all_goals simp [KEYS, NAMES]

theorem manifest_recorded : (manifest c.prepared).Within (recordAllowed platform.toPlatform signed (stated platform c)) := by
  unfold manifest
  split
  · rename_i p prepared
    exact Value.within_of_occurs _ (fun s occurs => .inr (.inr (.manifest prepared occurs)))
      (fun s occurs => .added (.configured (.manifest prepared occurs))) fun _ => trivial
  · simp [NAMES, clean_fault]

theorem checker_recorded (x : Exchange) :
    (checker platform c.prepared x).Recorded platform.toPlatform signed (stated platform c) where
  manifest := manifest_recorded
  evidence := by
    have not_run : Clean platform.toPlatform signed (stated platform c) "not_run" := clean_text (by simp [TEXTS])
    simp [checker, KEYS, NAMES, not_run]
  answers := check_many_answers
  batch := check_many_evidence

theorem calibrated_recorded {model : Value}
    (recorded : model.Within (recordAllowed platform.toPlatform signed (stated platform c))) :
    (c.calibrated platform model).Within (recordAllowed platform.toPlatform signed (stated platform c)) := by
  have calibration : c.calibration.Within (recordAllowed platform.toPlatform signed (stated platform c)) :=
    Value.within_of_occurs _ (fun s occurs => .inr (.inr (.calibration occurs)))
      (fun s occurs => .added (.configured (.calibration occurs))) fun _ => trivial
  have members := recorded.members.set (.inr (.inl (by simp [NAMES] : "calibration" ∈ NAMES))) calibration
  unfold ConfiguredModel.calibrated
  dsimp only
  split
  · refine members.set (.inr (.inl (by simp [NAMES] : "egress" ∈ NAMES))) ?_
    exact (members.get "egress").members.set (.inl (by simp [KEYS] : "threshold" ∈ KEYS)) within_float
  · exact members

theorem configured_manifest_recorded {p : Prepared} (prepared : c.prepared = .ok p) (rules : String) (calibration : Value) :
    (c.configured_manifest platform p rules calibration).Within
      (recordAllowed platform.toPlatform signed (stated platform c)) := by
  have identity : p.identity.Within (recordAllowed platform.toPlatform signed (stated platform c)) :=
    Value.within_of_occurs _ (fun s occurs => .inr (.inr (.manifest prepared occurs)))
      (fun s occurs => .added (.configured (.manifest prepared occurs))) fun _ => trivial
  exact identity.members.set (.inl (by simp [KEYS] : "configuration_digest" ∈ KEYS)) (.string (.digest _))

theorem invoke_recorded (x : Exchange) (rules : String) (read : Read) (reply : Reply) :
    (c.invoke platform x rules read reply).1.Within
      (recordAllowed platform.toPlatform read.release.signed (stated platform c)) := by
  have detail : (invoke_with platform.toPlatform read reply (some (c.model platform x))).1.Within
      (recordAllowed platform.toPlatform read.release.signed (stated platform c)) := by
    refine invoke_with_recorded ?_
    rintro _ ⟨⟩
    exact checker_recorded x
  have model := calibrated_recorded (detail.get "model")
  unfold ConfiguredModel.invoke
  dsimp only
  split
  · refine detail.members.set (.inl (by simp [KEYS] : "model" ∈ KEYS)) ?_
    split
    · rename_i p prepared
      exact model.members.set (.inl (by simp [KEYS] : "manifest" ∈ KEYS)) (configured_manifest_recorded prepared _ _)
    · exact model
  · exact detail

/-- What crosses from a process is bounded and what does not leaves the gap, and no invocation's detail holds text of the
reply or of the release. -/
theorem records_no_text {F : Type} (platform : Boundary F) :
    (∀ v, (filter_detail platform v).1.Within detailAllowed ∧
      (.output_dropped ∈ (filter_detail platform v).2 ∨ Preserved v (filter_detail platform v).1)) ∧
    (∀ (p : Prepared) v, v.get "questions" = strings p.questions →
      (filter_hello platform v).1.Within (helloAllowed platform v p.questions)) ∧
    (∀ v, ∀ member ∈ entries v,
      .output_dropped ∈ (filter_hello platform v).2 ∨ HelloPreserved platform (filter_hello platform v).1 member) ∧
    (∀ (read : Read) reply, (invoke_with platform.toPlatform read reply none).1.Within
      (recordAllowed platform.toPlatform read.release.signed ⟨fun _ => False, fun _ => False, fun _ => False⟩)) ∧
    ∀ (c : ConfiguredModel F) (x : Exchange) rules (read : Read) reply, (c.invoke platform x rules read reply).1.Within
      (recordAllowed platform.toPlatform read.release.signed (stated platform c)) := by
  refine ⟨fun v => ⟨filter_detail_within v, filter_detail_preserved v⟩, fun p v asked => ?_,
    fun v _ => filter_hello_preserved v, fun read reply => ?_, fun c x rules read reply => invoke_recorded x rules read reply⟩
  · have few : p.questions.length ≤ MAX_CHUNKS := by
      rcases p.asks with is | is <;> rw [is] <;> decide
    exact filter_hello_within asked few
  · exact invoke_with_recorded fun m held => nomatch held

def Boundary.hundredths : Boundary (Option Nat) where
  toPlatform := .hundredths
  asF64 n := if n.text.all isDigit then some (digitsValue n.text * 100) else none
  probability p := p.any (· ≤ 100)
  half := some 50
  canonical_json v := (write v).map fun b => Char.ofNat b.toNat
  origin s :=
    if "https://".toList.isPrefixOf s.toList then
      some (String.ofList ("https://".toList ++ (s.toList.drop 8).takeWhile (· ≠ '/')))
    else none

def keyedHello : Value :=
  .object [("questions", .array [.string "supported"]), ("model", .string "fixture/1"), ("family", .string "fixture"),
    ("endpoint", .string "https://api.example/score?key=x")]

theorem records_no_text_keyed : keyedHello.get "questions" = strings ["supported"] ∧
    (filter_hello Boundary.hundredths keyedHello).1.Within (helloAllowed Boundary.hundredths keyedHello ["supported"]) :=
  ⟨rfl, (records_no_text Boundary.hundredths).2.1
    { questions := ["supported"], network := none, identity := .null, admitting_term := none, asks := .inl rfl } keyedHello rfl⟩

end

end Sidecar

end CommonMeasure.Integrity
