import CommonMeasure.Observation.Serving

/-!
# Sessions of host observations

Whatever a session's server is asked, wherever its appends fail and however often it is reopened, the records it leaves
follow one another, and an output whose boundary was not written is completed by the very request that made it.
-/

namespace CommonMeasure.Observation

open Json Evidence

def Admitted.Fit (J : Reader) (file : Bytes) (observes : Bool) : Admitted → Prop
  | .started => True
  | .one event members => event ≠ "output_associated" ∧ Plain J members ∧
      ∀ n now registered, Follows (logRecords J file) (record n now event (.object (withInstance members registered)))
  | .output members generation recorded =>
      Plain J members ∧ (Value.object members).get "generation_id" = .string generation ∧
      (∀ record ∈ logRecords J file, eventOf record = some "turn_completed" →
        payloadText record "turn_id" ≠ some generation) ∧
      (recorded = true → ∃ output ∈ logRecords J file, eventOf output = some "output_associated" ∧
        output.get "payload" = .object members) ∧
      (recorded = false → observes = true ∧ ∀ n now registered,
        let output := record n now "output_associated" (.object (withInstance members registered))
        Follows (logRecords J file) output ∧ Completable J output)

section

variable {Uuid : Type} {config : Config Uuid} {file : Bytes} {index : Index config.canonicalUuid} {host : String}
  {now : Stamp}

/-! ### What is let through -/

theorem canonical_text (config : Config Uuid) (id : Uuid) : config.canonicalUuid (config.ids.text id) = true := by
  unfold Config.canonicalUuid
  rw [config.ids.parse_text]
  exact decide_eq_true rfl

theorem contextEntered_fit (answers : index.Answers config.J file) {acquisition generation : Uuid} {hash : String}
    {admitted : Admitted}
    (ok : contextEntered config index (observationBase config.sessionId host now "observed") acquisition generation hash =
      .ok admitted) : admitted.Fit config.J file true := by
  unfold contextEntered at ok
  dsimp only at ok
  split at ok
  · cases ok
  split at ok
  · cases ok
  rename_i known
  split at ok
  · cases ok
  rename_i delivered
  split at ok
  · cases ok
  rename_i fresh
  split at ok
  · cases ok
  rename_i open_
  obtain rfl := Except.ok.inj ok
  have plain : Plain config.J (observationBase config.sessionId host now "observed" ++
      [("acquisition_id", .string (config.ids.text acquisition)), ("generation_id", .string (config.ids.text generation)),
        ("representation_hash", .string hash)]) := by
    refine ⟨⟨?_, ?_⟩, ?_⟩
    · simp [observationBase]
    · simp [observationBase, config.J.holds_string]
    · simp [observationBase, Value.depth]
  refine ⟨by decide, plain, ?_⟩
  intro n stamp registered
  have text (name text : String) := @text_recorded config.J _ n stamp "context_entered" name registered plain.formed text
  have handle := text "acquisition_id" (config.ids.text acquisition) (by simp [observationBase]) (by decide)
  have run := text "generation_id" (config.ids.text generation) (by simp [observationBase]) (by decide)
  have shown := text "representation_hash" (hash) (by simp [observationBase]) (by decide)
  refine ⟨fun is => (event_only is (by decide)).elim, fun is => (event_only is (by decide)).elim, ?_,
    fun is => (event_only is (by decide)).elim⟩
  intro _
  rw [handle, run, shown]
  refine ⟨?_, ?_, ?_⟩
  · intro output listed is same
    obtain ⟨⟨_, start⟩, held, rfl⟩ := List.mem_map.mp listed
    exact open_ (generationHasOutput_iff.mpr ⟨start, (answers _).mpr ⟨_, held, is, same, le_rfl⟩⟩)
  · rintro entered listed is ⟨sameHandle, sameRun, sameHash⟩
    exact fresh (enteredAs_iff.mpr (knows_of_record answers listed fun _ => ⟨is, sameHandle, sameRun, sameHash⟩))
  · have admitted : index.admitted (config.ids.text acquisition) = true := by simpa using known
    obtain ⟨crossing, listed, _, is, same⟩ := known_record answers (admitted_iff.mp admitted)
    cases filed : index.deliveredFile (config.ids.text acquisition) with
    | true =>
      have matched : index.admittedWith (config.ids.text acquisition) hash = true := by simpa [filed] using delivered
      obtain ⟨crossing, listed, _, is, same, content⟩ := known_record answers (admittedWith_iff.mp matched)
      exact ⟨crossing, listed, is, same, fun _ => content⟩
    | false =>
      refine ⟨crossing, listed, is, same, ?_⟩
      intro file
      have knows := deliveredFile_iff.mpr (knows_of_record answers listed fun _ => ⟨is, same, file⟩)
      rw [filed] at knows
      cases knows

theorem actionDecided_fit (answers : index.Answers config.J file) {action generation acquisition : Uuid}
    {decision : ActionDecision} {rule : String} {target : ActionTarget} {data policy : String} {admitted : Admitted}
    (ok : actionDecided config index (observationBase config.sessionId host now "observed") action generation acquisition
      decision rule target data policy = .ok admitted) : admitted.Fit config.J file true := by
  unfold actionDecided at ok
  dsimp only at ok
  split at ok
  · cases ok
  split at ok
  · cases ok
  split at ok
  · cases ok
  rename_i matched
  split at ok
  · cases ok
  rename_i fresh
  obtain rfl := Except.ok.inj ok
  have plain : Plain config.J (observationBase config.sessionId host now "observed" ++
      [("action_id", .string (config.ids.text action)), ("generation_id", .string (config.ids.text generation)),
        ("acquisition_id", .string (config.ids.text acquisition)), ("action", .string "send_acquired_text"),
        ("decision", .string decision.text), ("rule_id", .string rule),
        ("target", .object [("url", .string target.url), ("recipient", .string target.recipient)]),
        ("data_hash", .string data), ("host_policy_hash", .string policy)]) := by
    have place : config.J.Holds (.object [("url", .string target.url), ("recipient", .string target.recipient)]) := by
      apply config.J.holds_object
      · simp
      · simp [config.J.holds_string]
    refine ⟨⟨?_, ?_⟩, ?_⟩
    · simp [observationBase]
    · simp [observationBase, config.J.holds_string, place]
    · simp [observationBase, Value.depth, depthMembers]
  refine ⟨by decide, plain, ?_⟩
  intro n stamp registered
  have text (name text : String) := @text_recorded config.J _ n stamp "action_decided" name registered plain.formed text
  have decided := text "action_id" (config.ids.text action) (by simp [observationBase]) (by decide)
  have run := text "generation_id" (config.ids.text generation) (by simp [observationBase]) (by decide)
  have handle := text "acquisition_id" (config.ids.text acquisition) (by simp [observationBase]) (by decide)
  have bytes := text "data_hash" (data) (by simp [observationBase]) (by decide)
  refine ⟨fun is => (event_only is (by decide)).elim, fun is => (event_only is (by decide)).elim,
    fun is => (event_only is (by decide)).elim, ?_⟩
  intro _
  rw [decided, run, handle, bytes]
  have both : index.admittedWith (config.ids.text acquisition) data = true ∧
      index.entered (config.ids.text acquisition) (config.ids.text generation) = true := by simpa using matched
  refine ⟨?_, ?_, ?_⟩
  · intro earlier listed is same
    exact fresh (actionRecorded_iff.mpr (knows_of_record answers listed fun _ => ⟨is, same⟩))
  · obtain ⟨crossing, listed, _, is, same, content⟩ := known_record answers (admittedWith_iff.mp both.1)
    exact ⟨crossing, listed, is, same, content⟩
  · obtain ⟨entry, listed, _, is, same, ran⟩ := known_record answers (entered_iff.mp both.2)
    exact ⟨entry, listed, is, same, ran⟩

theorem unavailable_fit {members : List (String × Value)} (plain : Plain config.J members) :
    (Admitted.one "observation_unavailable" members).Fit config.J file true :=
  ⟨by decide, plain, fun _ _ _ => follows_other (eventOf_record _) (by decide)⟩

theorem asStr_some {value : Value} {text : String} (is : value.asStr = some text) : value = .string text := by
  cases value with
  | string held => exact congrArg Value.string (Option.some.inj is)
  | _ => cases is

theorem identical_run {original : Value} {generation output hash : String} {acquisitions : List String}
    (same : identical original generation output hash acquisitions host = true) :
    (original.get "generation_id").asStr = some generation ∧ (original.get "output_id").asStr = some output := by
  simp only [identical, isText, Bool.and_eq_true, decide_eq_true_eq] at same
  exact same.1.1.1

theorem Recorded.output_of_boundary (recorded : Recorded config.J file) {boundary : Value} {generation : String}
    (listed : boundary ∈ logRecords config.J file) (is : eventOf boundary = some "turn_completed")
    (turn : payloadText boundary "turn_id" = some generation) :
    ∃ output ∈ logRecords config.J file, eventOf output = some "output_associated" ∧
      payloadText output "generation_id" = some generation := by
  obtain ⟨before, after, split⟩ := List.append_of_mem listed
  obtain ⟨_, output, earlier, event, agrees⟩ := (recorded.coherent before boundary after split).boundary is
  refine ⟨output, ?_, event, agrees.1.symm.trans turn⟩
  rw [split]
  exact List.mem_append_left _ earlier

theorem output_plain (J : Reader) (sessionId host : String) (now : Stamp) (generation output hash : String)
    (acquisitions : List String) :
    Plain J (outputMembers (observationBase sessionId host now "observed") generation output hash acquisitions) := by
  have ids : J.Holds (.array (acquisitions.map .string)) := by
    apply J.holds_array
    intro item listed
    obtain ⟨id, _, rfl⟩ := List.mem_map.mp listed
    exact J.holds_string id
  have flat : depthItems (acquisitions.map .string) = 0 := by
    clear ids
    induction acquisitions with
    | nil => rfl
    | cons id rest ih => simp [depthItems, Value.depth, ih]
  refine ⟨⟨?_, ?_⟩, ?_⟩
  · simp [outputMembers, observationBase]
  · simp [outputMembers, observationBase, J.holds_string, ids]
  · simp [outputMembers, observationBase, Value.depth, flat]

theorem outputAssociated_fit (answers : index.Answers config.J file) (recorded : Recorded config.J file)
    {generation output : Uuid} {hash : String} {acquisitions : List Uuid}
    {left : Index config.canonicalUuid} {admitted : Admitted}
    (ok : outputAssociated config index file (observationBase config.sessionId host now "observed") host generation output
      hash acquisitions = (left, .ok admitted)) : admitted.Fit config.J file true := by
  unfold outputAssociated at ok
  dsimp only at ok
  split at ok
  · cases ok
  rename_i valid
  rcases @firstOutput_cases _ _ config.digest _ _ answers (config.ids.text generation) (config.ids.text output) with
    ⟨none, unmade⟩ | ⟨original, listed, ⟨is, named⟩, found⟩
  · rw [none] at ok
    obtain ⟨rfl, made⟩ := Prod.mk.inj ok
    obtain rfl := Except.ok.inj made
    have plain := output_plain config.J config.sessionId host now (config.ids.text generation) (config.ids.text output) hash
      (acquisitions.map config.ids.text)
    refine ⟨plain, get_of_mem plain.formed.named (by simp [outputMembers, observationBase]), ?_, by simp, ?_⟩
    · intro record listed is turn
      obtain ⟨made, earlier, event, run⟩ := recorded.output_of_boundary listed is turn
      exact unmade made earlier ⟨event, Or.inl run⟩
    · intro _
      refine ⟨rfl, ?_⟩
      intro n stamp registered
      have text (name text : String) :=
        @text_recorded config.J _ n stamp "output_associated" name registered plain.formed text
      have run := text "generation_id" (config.ids.text generation) (by simp [outputMembers, observationBase]) (by decide)
      have made := text "output_id" (config.ids.text output) (by simp [outputMembers, observationBase]) (by decide)
      have hashed := text "output_hash" hash (by simp [outputMembers, observationBase]) (by decide)
      have bounds : validHash hash = true ∧ acquisitions.length ≤ 1024 := by simpa using valid
      constructor
      · refine ⟨?_, fun is => (event_only is (by decide)).elim, fun is => (event_only is (by decide)).elim,
          fun is => (event_only is (by decide)).elim⟩
        intro _ other listed is
        rw [run, made]
        exact ⟨fun same => unmade other listed ⟨is, Or.inl same⟩, fun same => unmade other listed ⟨is, Or.inr same⟩⟩
      · refine ⟨⟨_, record_payload _ _ _ _, plain.withInstance⟩, ⟨_, run⟩, ⟨hash, hashed, bounds.1⟩, ?_⟩
        refine ⟨(acquisitions.map config.ids.text).map .string, ?_, by simpa using bounds.2⟩
        rw [record_payload, get_withInstance plain.formed (by decide)]
        exact get_of_mem plain.formed.named (by simp [outputMembers])
  · rw [found] at ok
    dsimp only at ok
    split at ok
    · cases ok
    rename_i fresh
    obtain ⟨rfl, made⟩ := Prod.mk.inj ok
    obtain rfl := Except.ok.inj made
    obtain ⟨members, payload, plain⟩ := (recorded.outputs original listed is).payload
    simp only [Bool.or_eq_true, Bool.not_eq_true', not_or, Bool.not_eq_false] at fresh
    obtain ⟨run, _⟩ := identical_run fresh.1
    rw [payload] at run ⊢
    refine ⟨plain, asStr_some run, ?_, fun _ => ⟨original, listed, is, payload⟩, by simp⟩
    intro record listed is turn
    exact fresh.2 (completed_iff.mpr (knows_of_record answers listed fun _ => ⟨is, turn, canonical_text config _⟩))

structure Served.Sound (config : Config Uuid) (served : Served config.canonicalUuid) : Prop where
  log : Evidence.Sound config.J served.log
  recorded : Recorded config.J served.log.file
  opted : served.observes = true → optedIn config.J served.log.file = true
  /-- Only a process that has opted in records outputs. -/
  serves : ∀ record ∈ logRecords config.J served.log.file, eventOf record = some "output_associated" → served.observes = true
  journals : ∀ journal ∈ served.journals, Holds config.J (Entry.Correct config.J config.canonicalUuid served.log.file) journal
  validation : ∀ index ∈ served.validation, index.facts.Small ∧ Exact config.J served.log.file index.offset index.facts

variable {served : Served config.canonicalUuid} {request : Request Uuid}

theorem created_served (config : Config Uuid) : (Served.created config).Sound config where
  log := created_sound config.J Unit
  recorded := by
    have empty : logRecords config.J [] = [] := rfl
    constructor
    · show Coherent (logRecords config.J [])
      rw [empty]
      exact coherent_nil
    · intro record listed
      cases listed
  opted impossible := by cases impossible
  serves record listed := by cases listed
  journals journal listed := by cases listed
  validation index listed := by cases listed

theorem Served.Sound.grown (sound : served.Sound config) {log : State Unit} {observes : Bool} {added : List Value}
    (logSound : Evidence.Sound config.J log) (grew : Grew config.J served.log.file log.file added)
    (recorded : Recorded config.J log.file)
    (new : ∀ record ∈ added, eventOf record = some "output_associated" → served.observes = true)
    (keeps : observes = served.observes ∨ observes = true ∧ optedIn config.J log.file = true) :
    Served.Sound config { served with log, observes } where
  log := logSound
  recorded := recorded
  opted := by
    intro now
    rcases keeps with rfl | opted
    · exact optedIn_mono (sound.opted now) grew.1
    · exact opted.2
  serves := by
    intro record listed is
    have before : served.observes = true := by
      rcases mem_grew grew listed with earlier | added | gap
      · exact sound.serves record earlier is
      · exact new record added is
      · exact absurd (is.symm.trans gap) (by decide)
    rcases keeps with rfl | opted
    · exact before
    · exact opted.1
  journals journal listed := (sound.journals journal listed).mono fun _ correct => correct.mono grew.1
  validation index listed := (sound.validation index listed).imp_right (·.mono grew.1)

theorem Served.Sound.grew_nothing (sound : served.Sound config) {log : State Unit} (logSound : Evidence.Sound config.J log)
    (grew : Grew config.J served.log.file log.file []) : Served.Sound config { served with log } :=
  sound.grown logSound grew (sound.recorded.grew_nothing grew) (by simp) (Or.inl rfl)

theorem Served.Sound.grew_one (sound : served.Sound config) {log : State Unit} (logSound : Evidence.Sound config.J log)
    {record : Value} (grew : Grew config.J served.log.file log.file [record])
    (follows : Follows (logRecords config.J served.log.file) record)
    (output : eventOf record = some "output_associated" → Completable config.J record ∧ served.observes = true) :
    Served.Sound config { served with log } := by
  apply sound.grown logSound grew (sound.recorded.grew_one grew follows fun is => (output is).1) _ (Or.inl rfl)
  intro other new is
  obtain rfl := List.mem_singleton.mp new
  exact (output is).2

theorem reset_answers (J : Reader) (config : Config Uuid) : (Index.reset config.digest : Index config.canonicalUuid).Answers J [] := by
  intro atom
  have none : heldRecords J [] = [] := rfl
  rw [none]
  exact knows_default.trans (by simp)

theorem Served.Sound.catchUp (sound : served.Sound config) {journals : List Bytes} {goes : Bool}
    {index : Index config.canonicalUuid} (caught : served.catchUp config request = (index, journals, goes)) :
    Served.Sound config { served with journals, validation := some index } ∧
      (goes = true → index.Answers config.J served.log.file) := by
  have start : let index := served.validation.getD (Index.load config.J config.digest (journalRead served.journals request.opened))
      index.facts.Small ∧ Exact config.J served.log.file index.offset index.facts := by
    cases held : served.validation with
    | some index => exact sound.validation index held
    | none => exact loaded_exact sound.journals config.digest request.opened
  obtain ⟨small, exact⟩ := start
  unfold Served.catchUp at caught
  dsimp only at caught
  split at caught
  · rename_i nothing
    obtain ⟨rfl, same⟩ := Prod.mk.inj caught
    obtain ⟨rfl, rfl⟩ := Prod.mk.inj same
    refine ⟨⟨sound.log, sound.recorded, sound.opted, sound.serves, sound.journals, ?_⟩, ?_⟩
    · intro index is
      obtain rfl := Option.some.inj is
      exact ⟨small_default, reset_exact config.J config.digest _⟩
    · intro _
      rw [nothing.2]
      exact reset_answers config.J config
  · split at caught
    · rename_i after entry outcome scanned
      obtain ⟨small, exact, correct, answers⟩ := catchUp_answers small exact sound.log.bounded scanned
      obtain ⟨rfl, same⟩ := Prod.mk.inj caught
      obtain ⟨rfl, rfl⟩ := Prod.mk.inj same
      refine ⟨⟨sound.log, sound.recorded, sound.opted, sound.serves, ?_, ?_⟩, answers⟩
      · exact writeJournal_holds sound.journals (correct entry rfl) after.rewrite request.wrote
      · intro index is
        obtain rfl := Option.some.inj is
        exact ⟨small, exact⟩
    · rename_i after outcome scanned
      obtain ⟨small, exact, _, answers⟩ := catchUp_answers small exact sound.log.bounded scanned
      obtain ⟨rfl, same⟩ := Prod.mk.inj caught
      obtain ⟨rfl, rfl⟩ := Prod.mk.inj same
      refine ⟨⟨sound.log, sound.recorded, sound.opted, sound.serves, sound.journals, ?_⟩, answers⟩
      intro index is
      obtain rfl := Option.some.inj is
      exact ⟨small, exact⟩

theorem validate_fit (sound : served.Sound config) (answers : index.Answers config.J served.log.file)
    {left : Index config.canonicalUuid} {admitted : Admitted} (ok : served.validate config index request = (left, .ok admitted)) :
    admitted.Fit config.J served.log.file served.observes := by
  unfold Served.validate at ok
  dsimp only at ok
  split at ok
  · split at ok
    · cases ok
    · obtain ⟨_, made⟩ := Prod.mk.inj ok
      obtain rfl := Except.ok.inj made
      trivial
  · cases ok
  · rename_i opted
    rw [opted]
    exact contextEntered_fit answers (Prod.mk.inj ok).2
  · rename_i opted
    rw [opted]
    exact outputAssociated_fit answers sound.recorded ok
  · rename_i opted
    rw [opted]
    exact actionDecided_fit answers (Prod.mk.inj ok).2
  · rename_i opted
    obtain ⟨_, made⟩ := Prod.mk.inj ok
    obtain rfl := Except.ok.inj made
    rw [opted]
    refine unavailable_fit ⟨⟨?_, ?_⟩, ?_⟩
    · simp [observationBase]
    · simp [observationBase, config.J.holds_string]
    · simp [observationBase, Value.depth]

theorem validate_index (answers : index.Answers config.J served.log.file) :
    (served.validate config index request).1 = index := by
  unfold Served.validate
  dsimp only
  split
  · split <;> rfl
  · rfl
  · rfl
  · rename_i generation output hash acquisitions _ _
    unfold outputAssociated
    dsimp only
    split
    · rfl
    · rcases @firstOutput_cases _ _ config.digest _ _ answers (config.ids.text generation) (config.ids.text output) with
        ⟨none, _⟩ | ⟨original, _, _, found⟩
      · rw [none]
      · rw [found]
        dsimp only
        split <;> rfl
  · rfl
  · rfl

/-! ### Recording -/

theorem boundary_sound (sound : served.Sound config) {members : List (String × Value)} (plain : Plain config.J members)
    {generation : String} {output : Value} (listed : output ∈ logRecords config.J served.log.file)
    (is : eventOf output = some "output_associated") (run : payloadText output "generation_id" = some generation)
    (same : ∀ name ∈ sharedMembers, (output.get "payload").get name = (Value.object members).get name)
    (none : ∀ record ∈ logRecords config.J served.log.file, eventOf record = some "turn_completed" →
      payloadText record "turn_id" ≠ some generation) (cwd : Option String) (attempt : Attempt) :
    Served.Sound config { served with
      log := (logAppend served.log "turn_completed" (boundary members generation cwd served.policyIdentity) attempt).1 } := by
  obtain ⟨logSound, nothing | ⟨n, _, grew, _⟩⟩ := logAppend_cases sound.log "turn_completed"
    (boundary_plain plain generation cwd served.policyIdentity) attempt
  · exact sound.grew_nothing logSound nothing.2
  · have agrees := @boundary_agrees config.J members n attempt.clock.now "turn_completed" attempt.registered generation cwd
      served.policyIdentity plain output same run
    apply sound.grew_one logSound grew _ fun is => (event_only is (by decide)).elim
    refine ⟨fun is => (event_only is (by decide)).elim, ?_, fun is => (event_only is (by decide)).elim,
      fun is => (event_only is (by decide)).elim⟩
    intro _
    refine ⟨?_, output, listed, is, agrees⟩
    intro other listed event
    rw [agrees.1, run]
    exact none other listed event

theorem perform_sound (sound : served.Sound config) {admitted : Admitted}
    (fit : admitted.Fit config.J served.log.file served.observes) :
    (served.perform config request admitted).1.Sound config := by
  cases admitted with
  | started =>
    have plain : Plain config.J (observationBase config.sessionId request.host request.now "observed") := by
      refine ⟨⟨?_, ?_⟩, ?_⟩
      · simp [observationBase]
      · simp [observationBase, config.J.holds_string]
      · simp [observationBase, Value.depth]
    have appended := logAppend_cases sound.log "observations_started" plain request.first
    unfold Served.perform
    dsimp only
    generalize logAppend served.log "observations_started" _ request.first = after at appended
    obtain ⟨log, done⟩ := after
    obtain ⟨logSound, ⟨rfl, nothing⟩ | ⟨n, small, grew, line⟩⟩ := appended
    · exact sound.grown logSound nothing (sound.recorded.grew_nothing nothing) (by simp) (Or.inl (Bool.or_false _))
    · apply sound.grown logSound grew
      · exact sound.recorded.grew_one grew (follows_other (eventOf_record _) (by decide))
          fun is => (event_only is (by decide)).elim
      · intro record new is
        rw [List.mem_singleton.mp new] at is
        exact (event_only is (by decide)).elim
      · cases done with
        | false => exact Or.inl (Bool.or_false _)
        | true =>
          have recorded := @Plain.withInstance _ _ request.first.registered plain
          exact Or.inr ⟨Bool.or_true _,
            optedIn_of_line (record_entry small _ _ recorded.formed.holds recorded.depth) (line rfl)⟩
  | one event members =>
    obtain ⟨other, plain, follows⟩ := fit
    obtain ⟨logSound, ⟨_, nothing⟩ | ⟨n, _, grew, _⟩⟩ := logAppend_cases sound.log event plain request.first
    · exact sound.grew_nothing logSound nothing
    · exact sound.grew_one logSound grew (follows n _ _) fun is => (event_only is other.symm).elim
  | output members generation recorded =>
    obtain ⟨plain, run, none, original, fresh⟩ := fit
    cases recorded with
    | true =>
      obtain ⟨output, listed, is, payload⟩ := original rfl
      apply boundary_sound sound plain listed is _ _ none
      · unfold payloadText
        rw [payload, run]
        rfl
      · intro name _
        rw [payload]
    | false =>
      obtain ⟨opted, each⟩ := fresh rfl
      have appended := logAppend_cases sound.log "output_associated" plain request.first
      unfold Served.perform
      simp only [Bool.false_eq_true, if_false]
      generalize logAppend served.log "output_associated" members request.first = middle at appended
      obtain ⟨log, done⟩ := middle
      obtain ⟨logSound, ⟨rfl, nothing⟩ | ⟨n, _, grew, _⟩⟩ := appended
      · exact sound.grew_nothing logSound nothing
      · obtain ⟨follows, completable⟩ := each n request.first.clock.now request.first.registered
        have after : Served.Sound config { served with log } :=
          sound.grew_one logSound grew follows fun _ => ⟨completable, opted⟩
        cases done with
        | false => exact after
        | true =>
          refine boundary_sound after plain (grew_mem grew (Or.inr (List.mem_singleton_self _))) (eventOf_record _) ?_ ?_ ?_
            request.cwd request.second
          · unfold payloadText
            rw [record_payload, get_withInstance plain.formed (by decide), run]
            rfl
          · intro name shared
            have other : name ≠ "instance" := by
              revert name
              decide
            rw [record_payload, get_withInstance plain.formed other]
          · intro record listed is
            rcases mem_grew grew listed with earlier | new | gap
            · exact none record earlier is
            · rw [List.mem_singleton.mp new] at is
              exact (event_only is (by decide)).elim
            · exact absurd (is.symm.trans gap) (by decide)

theorem observed_sound (sound : served.Sound config) (request : Request Uuid) :
    (recordHostObservation config served request).1.Sound config := by
  unfold recordHostObservation
  cases caught : served.catchUp config request with
  | mk index rest =>
    obtain ⟨journals, goes⟩ := rest
    obtain ⟨kept, answers⟩ := sound.catchUp caught
    cases goes with
    | false => exact kept
    | true =>
      have same : (served.validate config index request).1 = index := validate_index (answers rfl)
      dsimp only
      cases ruled : served.validate config index request with
      | mk left outcome =>
        rw [ruled] at same
        obtain rfl : left = index := same
        cases outcome with
        | error failure => exact kept
        | ok admitted => exact perform_sound kept (validate_fit sound (answers rfl) ruled)

theorem ite_formed {condition : Prop} [Decidable condition] {members more : List (String × Value)}
    (one : Formed config.J members) (other : Formed config.J more) : Formed config.J (if condition then members else more) := by
  split
  · exact one
  · exact other

theorem crossing_formed (crossing : Crossing config.J) (observes : Bool) (handle crossingId : String)
    (hostCall policyIdentity : Option String) :
    Formed config.J (crossing.payload observes handle crossingId hostCall policyIdentity) := by
  have text {members : List (String × Value)} (formed : Formed config.J members) (name text : String) :
      Formed config.J (setMember members name (.string text)) := formed.set (config.J.holds_string text)
  have start : Formed config.J crossing.members := ⟨crossing.named, crossing.held⟩
  have observed {members : List (String × Value)} (formed : Formed config.J members) :
      Formed config.J (setMember (setMember members "context_observation" (.string "host_required")) "grounded" (.bool false)) :=
    (text formed _ _).set (config.J.holds_bool false)
  have issued {members : List (String × Value)} (formed : Formed config.J members) :
      Formed config.J (setMember (setMember (setMember (setMember members "acquisition_id" (.string handle)) "crossing_id"
        (.string crossingId)) "observer" (.string "cm")) "grade" (.string "mediated")) :=
    text (text (text (text formed _ _) _ _) _ _) _ _
  unfold Crossing.payload
  dsimp only
  split
  · apply text
    apply ite_formed
    · cases hostCall with
      | none => exact issued (ite_formed (observed start) start)
      | some hostCall => exact text (issued (ite_formed (observed start) start)) _ _
    · exact ite_formed (observed start) start
  · apply ite_formed
    · cases hostCall with
      | none => exact issued (ite_formed (observed start) start)
      | some hostCall => exact text (issued (ite_formed (observed start) start)) _ _
    · exact ite_formed (observed start) start

theorem crossing_other (crossing : Crossing config.J) : crossing.event ∉
    ["observations_started", "output_associated", "turn_completed", "context_entered", "action_decided"] := by
  unfold Crossing.event
  split <;> decide

theorem step_served (sound : served.Sound config) (happening : Happening config) :
    (served.step config happening).Sound config := by
  cases happening with
  | opens policyIdentity =>
    refine ⟨⟨sound.log.bounded, sound.log.numbered, fun _ => counts_default _, sound.log.returned⟩, sound.recorded, id, ?_,
      sound.journals, by rintro _ ⟨⟩⟩
    intro record listed is
    exact sound.opted (sound.serves record listed is)
  | crosses crossing handle crossingId hostCall attempt =>
    have formed := crossing_formed crossing served.observes (config.ids.text handle) (config.ids.text crossingId) hostCall
      served.policyIdentity
    have whole := @withInstance_formed _ _ attempt.registered formed
    have logSound := @logAppend_sound _ _ sound.log crossing.event _ attempt whole
    rcases (logAppend_grew sound.log crossing.event attempt whole).1 with nothing | ⟨n, _, grew⟩
    · exact sound.grew_nothing logSound nothing
    · have other := crossing_other crossing
      simp only [List.mem_cons, List.not_mem_nil, or_false, not_or] at other
      obtain ⟨_, output, boundary, entry, action⟩ := other
      apply sound.grew_one logSound grew (follows_other (eventOf_record _) _) fun is => (event_only is (Ne.symm output)).elim
      simp [output, boundary, entry, action]
  | observes request => exact observed_sound sound request

theorem run_served (config : Config Uuid) (happenings : List (Happening config)) :
    (runWith (Served.step config) (Served.created config) happenings).Sound config :=
  runWith_invariant (I := Served.Sound config) (fun _ happening sound => step_served sound happening) (created_served config) happenings

def Bounded (J : Reader) (file : Bytes) (generation : String) : Prop :=
  ∃ record ∈ logRecords J file, eventOf record = some "turn_completed" ∧ payloadText record "turn_id" = some generation

def Served.Completes (config : Config Uuid) (served : Served config.canonicalUuid) (request : Request Uuid)
    (generation output : Uuid) (hash : String) (acquisitions : List Uuid) : Prop :=
  ∀ original ∈ logRecords config.J served.log.file,
    IsOutput (config.ids.text generation) (config.ids.text output) original →
    let very := identical (original.get "payload") (config.ids.text generation) (config.ids.text output) hash
      (acquisitions.map config.ids.text) request.host
    let answered := recordHostObservation config served request
    (very = false ∨ Bounded config.J served.log.file (config.ids.text generation) →
      answered.1.log = served.log ∧ answered.2.toBool = false) ∧
    (very = true → ¬Bounded config.J served.log.file (config.ids.text generation) →
      ∀ records, Evidence.read config.J served.log.file = .ok records →
      let appended := logAppend served.log "turn_completed"
        (boundary (membersOf (original.get "payload")) (config.ids.text generation) request.cwd served.policyIdentity)
        request.second
      answered.1.log = appended.1 ∧ answered.2.toBool = appended.2 ∧
      (appended.2 = true → ∃ boundary, eventOf boundary = some "turn_completed" ∧ Agrees original boundary ∧
        Grew config.J served.log.file appended.1.file [boundary]))

theorem Served.Sound.goes (sound : served.Sound config) {records : List Value}
    (readable : Evidence.read config.J served.log.file = .ok records) (some_ : served.log.file ≠ []) (request : Request Uuid) :
    (served.catchUp config request).2.2 = true := by
  have start : let index := served.validation.getD (Index.load config.J config.digest (journalRead served.journals request.opened))
      Exact config.J served.log.file index.offset index.facts := by
    cases held : served.validation with
    | some index => exact (sound.validation index held).2
    | none => exact (loaded_exact sound.journals config.digest request.opened).2
  obtain ⟨lines, begins, offset, _⟩ := @Index.Sound.checked_exact config.J _ config.digest _ _ start
  have read := readable_scanned readable begins offset
  unfold Served.catchUp
  dsimp only
  rw [if_neg fun absent => some_ absent.2]
  split
  · rename_i caught
    exact (catchUp_never caught).2.mpr read
  · rename_i caught
    exact (catchUp_never caught).2.mpr read

theorem validate_output {generation output : Uuid} {hash : String} {acquisitions : List Uuid}
    (is : request.event = .outputAssociated generation output hash acquisitions) (opted : served.observes = true)
    (index : Index config.canonicalUuid) : served.validate config index request = outputAssociated config index served.log.file
      (observationBase config.sessionId request.host request.now "observed") request.host generation output hash
      acquisitions := by
  unfold Served.validate
  rw [is, opted]

theorem Recorded.very_output (recorded : Recorded config.J file) {generation output hash : String} {acquisitions : List String}
    {original other : Value} (listed : original ∈ logRecords config.J file) (also : other ∈ logRecords config.J file)
    (is : IsOutput generation output original) (too : IsOutput generation output other)
    (same : identical (original.get "payload") generation output hash acquisitions host = true) : other = original := by
  obtain ⟨run, made⟩ := identical_run same
  apply recorded.coherent.output_once also listed too.1 is.1
  exact too.2.imp (fun named => named.trans run.symm) fun named => named.trans made.symm

theorem completed_bounded (answers : index.Answers config.J file) (generation : Uuid) :
    index.completed (config.ids.text generation) = true ↔ Bounded config.J file (config.ids.text generation) := by
  rw [completed_iff]
  constructor
  · intro knows
    obtain ⟨record, listed, _, is, turn, _⟩ := known_record answers knows
    exact ⟨record, listed, is, turn⟩
  · rintro ⟨record, listed, is, turn⟩
    exact knows_of_record answers listed fun _ => ⟨is, turn, canonical_text config generation⟩

section

variable {generation output : Uuid} {hash : String} {acquisitions : List Uuid} {original : Value}
  {base : List (String × Value)}

theorem output_refused (answers : index.Answers config.J file) (recorded : Recorded config.J file)
    (listed : original ∈ logRecords config.J file)
    (is : IsOutput (config.ids.text generation) (config.ids.text output) original)
    (unfinished : identical (original.get "payload") (config.ids.text generation) (config.ids.text output) hash
      (acquisitions.map config.ids.text) host = false ∨ Bounded config.J file (config.ids.text generation)) :
    ∃ failure, outputAssociated config index file base host generation output hash acquisitions = (index, .error failure) := by
  unfold outputAssociated
  dsimp only
  split
  · exact ⟨_, rfl⟩
  · rcases @firstOutput_cases _ _ config.digest _ _ answers (config.ids.text generation) (config.ids.text output) with
      ⟨_, unmade⟩ | ⟨other, also, too, found⟩
    · exact (unmade original listed is).elim
    · rw [found]
      dsimp only
      split
      · exact ⟨_, rfl⟩
      · rename_i fresh
        simp only [Bool.or_eq_true, Bool.not_eq_true', not_or, Bool.not_eq_false] at fresh
        obtain rfl : original = other := recorded.very_output also listed too is fresh.1
        rcases unfinished with different | bounded
        · rw [fresh.1] at different
          cases different
        · exact (fresh.2 ((completed_bounded answers generation).mpr bounded)).elim

theorem output_resumed (answers : index.Answers config.J file) (recorded : Recorded config.J file)
    (listed : original ∈ logRecords config.J file)
    (is : IsOutput (config.ids.text generation) (config.ids.text output) original)
    (very : identical (original.get "payload") (config.ids.text generation) (config.ids.text output) hash
      (acquisitions.map config.ids.text) host = true)
    (unbounded : ¬Bounded config.J file (config.ids.text generation)) :
    outputAssociated config index file base host generation output hash acquisitions =
      (index, .ok (.output (membersOf (original.get "payload")) (config.ids.text generation) true)) := by
  have valid : (!validHash hash || 1024 < acquisitions.length) = false := by
    obtain ⟨_, _, ⟨held, shown, valid⟩, items, ids, few⟩ := recorded.outputs original listed is.1
    simp only [identical, isText, Bool.and_eq_true, decide_eq_true_eq] at very
    obtain ⟨⟨⟨_, hashed⟩, named⟩, _⟩ := very
    obtain rfl : held = hash := Option.some.inj (shown.symm.trans hashed)
    rw [ids] at named
    have lengths := congrArg List.length (of_decide_eq_true named)
    simp only [List.length_map] at lengths
    simp [valid]
    omega
  unfold outputAssociated
  dsimp only
  rw [valid]
  rcases @firstOutput_cases _ _ config.digest _ _ answers (config.ids.text generation) (config.ids.text output) with
    ⟨_, unmade⟩ | ⟨other, also, too, found⟩
  · exact (unmade original listed is).elim
  · obtain rfl : other = original := recorded.very_output listed also is too very
    have open_ : index.completed (config.ids.text generation) = false := by
      rw [← Bool.not_eq_true, completed_bounded answers]
      exact unbounded
    simp only [Bool.false_eq_true, if_false, found, very, open_, Bool.not_true, Bool.or_self]

theorem completes_served (sound : served.Sound config) (is : request.event = .outputAssociated generation output hash acquisitions) :
    served.Completes config request generation output hash acquisitions := by
  intro original listed isOutput
  have opted := sound.serves original listed isOutput.1
  dsimp only
  constructor
  · intro unfinished
    unfold recordHostObservation
    cases caught : served.catchUp config request with
    | mk index rest =>
      obtain ⟨journals, goes⟩ := rest
      cases goes with
      | false => exact ⟨rfl, rfl⟩
      | true =>
        have answers := (sound.catchUp caught).2 rfl
        obtain ⟨failure, refused⟩ := @output_refused _ config served.log.file index request.host generation output hash
          acquisitions original (observationBase config.sessionId request.host request.now "observed") answers sound.recorded
          listed isOutput unfinished
        dsimp only
        rw [validate_output is opted, refused]
        exact ⟨rfl, rfl⟩
  · intro very unbounded records readable
    have some_ : served.log.file ≠ [] := by
      intro empty
      rw [empty] at listed
      cases listed
    have goes := sound.goes readable some_ request
    have resumed : ∃ index journals, recordHostObservation config served request =
        let performed := Served.perform config { served with journals, validation := some index } request
          (.output (membersOf (original.get "payload")) (config.ids.text generation) true)
        (performed.1, if performed.2 then .ok () else .error .unavailable) := by
      unfold recordHostObservation
      cases caught : served.catchUp config request with
      | mk index rest =>
        obtain ⟨journals, went⟩ := rest
        rw [caught] at goes
        obtain rfl : went = true := goes
        have answers := (sound.catchUp caught).2 rfl
        refine ⟨index, journals, ?_⟩
        dsimp only
        rw [validate_output is opted, output_resumed answers sound.recorded listed isOutput very unbounded]
    obtain ⟨index, journals, resumed⟩ := resumed
    obtain ⟨members, payload, plain⟩ := (sound.recorded.outputs original listed isOutput.1).payload
    obtain ⟨run, _⟩ := identical_run very
    rw [resumed, payload]
    unfold Served.perform
    dsimp only [membersOf]
    simp only [if_true]
    have appended := logAppend_cases sound.log "turn_completed"
      (boundary_plain plain (config.ids.text generation) request.cwd served.policyIdentity) request.second
    generalize logAppend served.log "turn_completed" _ request.second = after at appended
    obtain ⟨log, done⟩ := after
    refine ⟨trivial, by cases done <;> rfl, ?_⟩
    intro returned
    obtain ⟨_, ⟨failed, _⟩ | ⟨n, _, grew, _⟩⟩ := appended
    · exact absurd (failed.symm.trans returned) (by decide)
    · refine ⟨_, eventOf_record _, boundary_agrees plain ?_ run, grew⟩
      intro name _
      rw [payload]

end

/-- Whatever the server is asked, wherever its appends fail and however often its log is reopened. -/
theorem observations_coherent (config : Config Uuid) (happenings : List (Happening config)) :
    let served := runWith (Served.step config) (Served.created config) happenings
    Coherent (logRecords config.J served.log.file) ∧
      ∀ (request : Request Uuid) (generation output : Uuid) (hash : String) (acquisitions : List Uuid),
        request.event = .outputAssociated generation output hash acquisitions →
        served.Completes config request generation output hash acquisitions := by
  have sound := run_served config happenings
  exact ⟨sound.recorded.coherent, fun _ _ _ _ _ is => completes_served sound is⟩

end

end CommonMeasure.Observation
