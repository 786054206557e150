import CommonMeasure.Published.Run

/-!
# What a published run says of its files

Where no two providers' names reduce to one stem, no plan writes over another's files: what each seals stands in the
published directory under its hash, and so does what it labels, or the plan states that it could not be published.
-/

namespace CommonMeasure.Published

open Json Evidence

variable {L : Libraries}

def Plan.legs (plan : Plan) : List Sealed :=
  plan.response.toList ++ (plan.quote.map fun quote => [quote.1, quote.2]).getD []

def Plan.labels (plan : Plan) : List Sealed := (plan.label.map fun label => [label.1, label.2]).getD []

def Stands (L : Libraries) (files : Files) (sealed : Sealed) : Prop :=
  ∃ bytes, files sealed.reference = some bytes ∧ L.sha256_digest bytes = sealed.hash

structure Plan.Kept (L : Libraries) (files : Files) (plan : Plan) : Prop where
  named : Named plan.id
  legs : ∀ sealed ∈ plan.legs, Stands L files sealed
  labels : (∀ sealed ∈ plan.labels, Stands L files sealed) ∨
    ∃ error, labelGap (Kind.labelled.reference plan.id) error ∈ plan.gaps
  own : ∀ sealed ∈ plan.legs ++ plan.labels, ∃ kind : Kind, sealed.reference = kind.reference plan.id

/-! ### Writes -/

def Frame (plan : List Char) (files after : Files) : Prop :=
  ∀ path, (∀ kind : Kind, path ≠ kind.reference plan) → after path = files path

theorem Frame.refl (plan : List Char) (files : Files) : Frame plan files files := fun _ _ => rfl

theorem Frame.trans {plan : List Char} {a b c : Files} (first : Frame plan a b) (second : Frame plan b c) : Frame plan a c :=
  fun path other => (second path other).trans (first path other)

@[simp] theorem write_same (files : Files) (path : Path) (bytes : Bytes) : files.write path bytes path = some bytes :=
  if_pos rfl

theorem write_other (files : Files) {path p : Path} (bytes : Bytes) (other : p ≠ path) : files.write path bytes p = files p :=
  if_neg other

theorem write_bytes_other (files : Files) {path p : Path} (bytes : Bytes) (write : Write) (other : p ≠ path) :
    (write_bytes files path bytes write).1 p = files p := by
  obtain _ | ⟨_ | left, error⟩ := write
  · exact write_other _ _ other
  · rfl
  · exact write_other _ _ other

theorem write_bytes_done {files : Files} {path : Path} {bytes : Bytes} {write : Write}
    (done : (write_bytes files path bytes write).2 = none) : (write_bytes files path bytes write).1 path = some bytes := by
  obtain _ | ⟨_ | left, error⟩ := write
  · exact write_same _ _ _
  · cases done
  · cases done

theorem write_bytes_frame (files : Files) (kind : Kind) (plan : List Char) (bytes : Bytes) (write : Write) :
    Frame plan files (write_bytes files (kind.reference plan) bytes write).1 :=
  fun _ other => write_bytes_other files bytes write (other kind)

theorem seal_bytes_ok {run after : Execution} {kind : Kind} {plan : List Char} {sealing : Sealing} {sealed : Sealed}
    (ok : seal_bytes L run kind plan sealing = .ok (sealed, after)) :
    sealed.reference = kind.reference plan ∧ Stands L after.files sealed ∧ Frame plan run.files after.files ∧
      (∀ path, path ≠ kind.reference plan → after.files path = run.files path) ∧ after.entries = run.entries := by
  unfold seal_bytes at ok
  have done := @write_bytes_done run.files (kind.reference plan) sealing.bytes sealing.write
  have others := fun path => @write_bytes_other run.files (kind.reference plan) path sealing.bytes sealing.write
  have frame := write_bytes_frame run.files kind plan sealing.bytes sealing.write
  generalize write_bytes run.files (kind.reference plan) sealing.bytes sealing.write = wrote at ok done others frame
  obtain ⟨files, failure⟩ := wrote
  cases failure with
  | some error => cases ok
  | none =>
    cases ok
    exact ⟨rfl, ⟨_, done rfl, rfl⟩, frame, others, rfl⟩

theorem Stands.keep {files after : Files} {sealed : Sealed} (stands : Stands L files sealed)
    (same : after sealed.reference = files sealed.reference) : Stands L after sealed := by
  obtain ⟨bytes, there, hash⟩ := stands
  exact ⟨bytes, same.trans there, hash⟩

structure Legs (L : Libraries) (plan : List Char) (run after : Execution) (legs : List Sealed) : Prop where
  stands : ∀ sealed ∈ legs, Stands L after.files sealed
  own : ∀ sealed ∈ legs, ∃ kind : Kind, kind.folder = Kind.response.folder ∧ sealed.reference = kind.reference plan
  frame : Frame plan run.files after.files
  entries : after.entries = run.entries

theorem kinds_differ {plan : List Char} (named : Named plan) {k k' : Kind} (differ : k ≠ k') :
    k.reference plan ≠ k'.reference plan := fun same => differ (reference_inj named named same).1

theorem seal_quote_ok {plan : List Char} (named : Named plan) {run after : Execution} {legs : Option (Sealing × Sealing)}
    {quote : Option (Sealed × Sealed)} (ok : seal_quote L run plan legs = .ok (quote, after)) :
    Legs L plan run after ((quote.map fun quote => [quote.1, quote.2]).getD []) ∧
      ∀ q, quote = some q → q.1.reference = Kind.inspect.reference plan ∧ q.2.reference = Kind.preview.reference plan := by
  cases legs with
  | none =>
    cases ok
    exact ⟨⟨fun _ listed => (nomatch listed), fun _ listed => (nomatch listed), .refl _ _, rfl⟩,
      fun _ none_ => nomatch none_⟩
  | some legs =>
    obtain ⟨⟨inspect, first⟩, inspected, ok⟩ := bind_ok.mp ok
    obtain ⟨⟨preview, second⟩, previewed, ok⟩ := bind_ok.mp ok
    cases ok
    obtain ⟨inspectAt, inspectStands, inspectFrame, inspectOthers, inspectEntries⟩ := seal_bytes_ok inspected
    obtain ⟨previewAt, previewStands, previewFrame, previewOthers, previewEntries⟩ := seal_bytes_ok previewed
    have kept : Stands L after.files inspect :=
      inspectStands.keep (previewOthers _ (inspectAt ▸ kinds_differ named (by decide)))
    refine ⟨⟨?_, ?_, inspectFrame.trans previewFrame, previewEntries.trans inspectEntries⟩, ?_⟩
    · exact List.forall_mem_cons.mpr ⟨kept, List.forall_mem_singleton.mpr previewStands⟩
    · exact List.forall_mem_cons.mpr ⟨⟨.inspect, rfl, inspectAt⟩, List.forall_mem_singleton.mpr ⟨.preview, rfl, previewAt⟩⟩
    · rintro q ⟨⟩
      exact ⟨inspectAt, previewAt⟩

theorem seal_response_ok {plan : List Char} {run after : Execution} {raw : Option Sealing} {response : Option Sealed}
    (ok : seal_response L run plan raw = .ok (response, after)) :
    Legs L plan run after response.toList ∧
      ∀ path, path ≠ Kind.response.reference plan → after.files path = run.files path := by
  cases raw with
  | none =>
    cases ok
    exact ⟨⟨fun _ listed => (nomatch listed), fun _ listed => (nomatch listed), .refl _ _, rfl⟩, fun _ _ => rfl⟩
  | some raw =>
    obtain ⟨⟨sealed, first⟩, wrote, ok⟩ := bind_ok.mp ok
    cases ok
    obtain ⟨at_, stands, frame, others, entries⟩ := seal_bytes_ok wrote
    exact ⟨⟨List.forall_mem_singleton.mpr stands, List.forall_mem_singleton.mpr ⟨.response, rfl, at_⟩, frame, entries⟩, others⟩

structure Added (L : Libraries) (id : List Char) (run after : Execution) (plan : Plan) : Prop where
  named : plan.id = id
  kept : plan.Kept L after.files
  frame : Frame id run.files after.files
  entries : ∃ invoked : List Entry, (∀ entry ∈ invoked, entry.event = "processor_invoked") ∧
    ∃ attempt, after.entries = run.entries ++ invoked ++ [⟨attempt, "plan_completed", plan.value⟩]

theorem foldl_record (invocations : List (Attempt × Value)) (run : Execution) :
    invocations.foldl (fun run i => run.record i.1 "processor_invoked" i.2) run =
      ⟨run.files, run.entries ++ invocations.map fun i => ⟨i.1, "processor_invoked", i.2⟩⟩ := by
  induction invocations generalizing run with
  | nil => rw [List.map_nil, List.append_nil]; rfl
  | cons i invocations ih =>
    rw [List.foldl_cons, ih]
    simp [Execution.record]

theorem publish_spec {plan : List Char} (named : Named plan) (label : Label) (files : Files) :
    Frame plan files (label.publish plan files).1 ∧
      (∀ kind : Kind, kind.folder = Kind.response.folder →
        (label.publish plan files).1 (kind.reference plan) = files (kind.reference plan)) ∧
      ((label.publish plan files).2 = none → Stands L (label.publish plan files).1 (label.labelled L plan) ∧
        Stands L (label.publish plan files).1 (label.stored L plan)) := by
  have leg : ∀ kind : Kind, kind.folder = Kind.response.folder → kind ≠ .labelled ∧ kind ≠ .manifest := by
    intro kind folder
    constructor <;> rintro rfl <;> exact absurd folder (by decide)
  unfold Label.publish
  have firstDone := @write_bytes_done files (Kind.labelled.reference plan) label.text.bytes label.text.write
  have firstOthers := fun path =>
    @write_bytes_other files (Kind.labelled.reference plan) path label.text.bytes label.text.write
  have firstFrame := write_bytes_frame files .labelled plan label.text.bytes label.text.write
  generalize write_bytes files (Kind.labelled.reference plan) label.text.bytes label.text.write = first at *
  obtain ⟨after, failure⟩ := first
  cases failure with
  | some error =>
    exact ⟨firstFrame, fun kind folder => firstOthers _ (kinds_differ named (leg kind folder).1), fun none_ => nomatch none_⟩
  | none =>
    have lastDone := @write_bytes_done after (Kind.manifest.reference plan) label.manifest.bytes label.manifest.write
    have lastOthers := fun path =>
      @write_bytes_other after (Kind.manifest.reference plan) path label.manifest.bytes label.manifest.write
    have lastFrame := write_bytes_frame after .manifest plan label.manifest.bytes label.manifest.write
    refine ⟨firstFrame.trans lastFrame, ?_, fun done => ⟨⟨label.text.bytes, ?_, rfl⟩, ⟨label.manifest.bytes, lastDone done, rfl⟩⟩⟩
    · intro kind folder
      exact (lastOthers _ (kinds_differ named (leg kind folder).2)).trans
        (firstOthers _ (kinds_differ named (leg kind folder).1))
    · exact (lastOthers _ (kinds_differ named (by decide))).trans (firstDone rfl)

structure Labelled (L : Libraries) (plan : Plan) (run : Execution) (labelled : Plan) (after : Execution) : Prop where
  id : labelled.id = plan.id
  legs : labelled.legs = plan.legs
  frame : Frame plan.id run.files after.files
  others : ∀ kind : Kind, kind.folder = Kind.response.folder →
    after.files (kind.reference plan.id) = run.files (kind.reference plan.id)
  labels : (∀ sealed ∈ labelled.labels, Stands L after.files sealed) ∨
    ∃ error, labelGap (Kind.labelled.reference plan.id) error ∈ labelled.gaps
  own : ∀ sealed ∈ labelled.labels, ∃ kind : Kind, sealed.reference = kind.reference plan.id
  entries : ∃ invoked : List Entry, (∀ entry ∈ invoked, entry.event = "processor_invoked") ∧
    after.entries = run.entries ++ invoked

theorem label_output_spec {plan : Plan} (named : Named plan.id) (unlabelled : plan.label = none) (run : Execution)
    (label : Option Label) :
    Labelled L plan run (label_output L run plan label).1 (label_output L run plan label).2 := by
  cases label with
  | none =>
    have empty : plan.labels = [] := by rw [Plan.labels, unlabelled]; rfl
    refine ⟨rfl, rfl, .refl _ _, fun _ _ => rfl, .inl ?_, ?_, [], fun _ listed => (nomatch listed), (List.append_nil _).symm⟩
    · intro sealed listed
      rw [show (label_output L run plan none).1 = plan from rfl, empty] at listed
      cases listed
    · intro sealed listed
      rw [show (label_output L run plan none).1 = plan from rfl, empty] at listed
      cases listed
  | some label =>
    obtain ⟨frame, others, done⟩ := @publish_spec L _ named label run.files
    refine ⟨rfl, rfl, frame, others, ?_, ?_, [⟨label.attempt, "processor_invoked", label.invocation L plan.id⟩], ?_, rfl⟩
    · cases failed : (label.publish plan.id run.files).2 with
      | none =>
        obtain ⟨text, manifest⟩ := done failed
        exact .inl (List.forall_mem_cons.mpr ⟨text, List.forall_mem_singleton.mpr manifest⟩)
      | some error =>
        refine .inr ⟨error, List.mem_append_right _ ?_⟩
        show _ ∈ (((label.publish plan.id run.files).2).map _).toList
        rw [failed]
        exact List.mem_singleton_self _
    · exact List.forall_mem_cons.mpr ⟨⟨.labelled, rfl⟩, List.forall_mem_singleton.mpr ⟨.manifest, rfl⟩⟩
    · exact List.forall_mem_singleton.mpr rfl

theorem record_plan_added {id : List Char} (named : Named id) {start run : Execution} {response : Option Sealed}
    {quote : Option (Sealed × Sealed)} (assembly : Assembly)
    (legs : Legs L id start run (response.toList ++ (quote.map fun quote => [quote.1, quote.2]).getD [])) :
    Added L id start (record_plan L run id response quote assembly).2 (record_plan L run id response quote assembly).1 := by
  unfold record_plan
  rw [foldl_record]
  dsimp only
  generalize planned : Plan.mk id response quote none _ _ _ _ = plan
  have is : plan.id = id := by rw [← planned]
  have unlabelled : plan.label = none := by rw [← planned]
  have sealed_ : plan.legs = response.toList ++ (quote.map fun quote => [quote.1, quote.2]).getD [] := by
    rw [← planned]
    rfl
  generalize before : Execution.mk run.files _ = invoked
  have files : invoked.files = run.files := by rw [← before]
  have spec := @label_output_spec L plan (is ▸ named) unlabelled invoked assembly.label
  generalize label_output L invoked plan assembly.label = labelled at spec ⊢
  obtain ⟨labelled, after⟩ := labelled
  obtain ⟨same, sameLegs, frame, others, labels, own, last, lastInvoked, entries⟩ := spec
  rw [is] at same frame others labels own
  rw [files] at frame others
  refine ⟨same, ⟨same ▸ named, ?_, same ▸ labels, ?_⟩, legs.frame.trans frame, ?_⟩
  · intro leg listed
    rw [show (labelled : Plan).legs = _ from sameLegs.trans sealed_] at listed
    obtain ⟨kind, folder, at_⟩ := legs.own leg listed
    exact (legs.stands leg listed).keep (at_ ▸ others kind folder)
  · intro leg listed
    rw [show (labelled : Plan).id = id from same]
    obtain isLeg | isLabel := List.mem_append.mp listed
    · rw [show (labelled : Plan).legs = _ from sameLegs.trans sealed_] at isLeg
      obtain ⟨kind, _, at_⟩ := legs.own leg isLeg
      exact ⟨kind, at_⟩
    · exact own leg isLabel
  · refine ⟨assembly.invocations.map (fun i => ⟨i.1, "processor_invoked", i.2⟩) ++ last, ?_, assembly.completed, ?_⟩
    · intro entry listed
      obtain early | late := List.mem_append.mp listed
      · obtain ⟨i, _, rfl⟩ := List.mem_map.mp early
        rfl
      · exact lastInvoked entry late
    · show after.entries ++ _ = _
      rw [show after.entries = invoked.entries ++ last from entries, ← before, legs.entries]
      simp only [List.append_assoc]

theorem provider_plan_added {run after : Execution} {provider : List Char} {work : Work} {plan : Plan}
    (ok : provider_plan L run provider work = .ok (plan, after)) : Added L (planName provider) run after plan := by
  obtain ⟨⟨quote, first⟩, quoted, ok⟩ := bind_ok.mp ok
  obtain ⟨⟨response, second⟩, answered, ok⟩ := bind_ok.mp ok
  have named := named_planName provider
  obtain ⟨quoteLegs, quoteAt⟩ := seal_quote_ok named quoted
  obtain ⟨responseLegs, others⟩ := seal_response_ok answered
  have added := @record_plan_added L _ named run second response quote work.assembly ⟨?_, ?_, ?_, ?_⟩
  · cases ok
    exact added
  · intro sealed listed
    obtain here | earlier := List.mem_append.mp listed
    · exact responseLegs.stands sealed here
    · refine (quoteLegs.stands sealed earlier).keep (others _ ?_)
      cases quote with
      | none => cases earlier
      | some quote =>
        obtain ⟨inspectAt, previewAt⟩ := quoteAt quote rfl
        obtain rfl | last := List.mem_cons.mp earlier
        · exact inspectAt ▸ kinds_differ named (by decide)
        · rw [List.mem_singleton.mp last, previewAt]
          exact kinds_differ named (by decide)
  · exact fun sealed listed => (List.mem_append.mp listed).elim (responseLegs.own sealed) (quoteLegs.own sealed)
  · exact quoteLegs.frame.trans responseLegs.frame
  · exact responseLegs.entries.trans quoteLegs.entries

def completions (entries : List Entry) : List Value :=
  (entries.filter fun entry => entry.event = "plan_completed").map Entry.payload

structure Ran (L : Libraries) (run : Execution) (plans : List Plan) : Prop where
  kept : ∀ plan ∈ plans, plan.Kept L run.files
  completed : completions run.entries = plans.map Plan.value

theorem Plan.Kept.frame {plan : Plan} {id : List Char} {files after : Files} (kept : plan.Kept L files) (named : Named id)
    (apart : file_stem plan.id ≠ file_stem id) (frame : Frame id files after) : plan.Kept L after := by
  have same : ∀ sealed ∈ plan.legs ++ plan.labels, after sealed.reference = files sealed.reference := by
    intro sealed listed
    obtain ⟨kind, at_⟩ := kept.own sealed listed
    refine frame _ fun kind' clash => apart ?_
    exact (reference_inj kept.named named (at_.symm.trans clash)).2
  exact ⟨kept.named, fun sealed listed => (kept.legs sealed listed).keep (same sealed (List.mem_append_left _ listed)),
    kept.labels.imp_left fun labels sealed listed => (labels sealed listed).keep (same sealed (List.mem_append_right _ listed)),
    kept.own⟩

theorem Ran.add {run after : Execution} {plans : List Plan} {plan : Plan} {id : List Char} (ran : Ran L run plans)
    (named : Named id) (added : Added L id run after plan) (apart : ∀ q ∈ plans, file_stem q.id ≠ file_stem id) :
    Ran L after (plans ++ [plan]) := by
  refine ⟨?_, ?_⟩
  · refine List.forall_mem_append.mpr ⟨fun q listed => ?_, List.forall_mem_singleton.mpr added.kept⟩
    exact (ran.kept q listed).frame named (apart q listed) added.frame
  · obtain ⟨invoked, processors, attempt, entries⟩ := added.entries
    have others : invoked.filter (fun entry => entry.event = "plan_completed") = [] := by
      rw [List.filter_eq_nil_iff]
      intro entry listed
      rw [processors entry listed]
      decide
    have before := ran.completed
    unfold completions at before ⊢
    rw [entries, List.filter_append, List.filter_append, others, List.append_nil, List.map_append, before, List.map_append]
    rfl

theorem frame_own {plan : List Char} {files after : Files} (frame : Frame plan files after) {path : Path}
    (own : '/' ∉ path) : after path = files path :=
  frame path fun kind same => own (same ▸ reference_folder kind plan)

theorem provider_plans_ran {work : List Plan → List Char → Work} {providers : List (List Char)} {run after : Execution}
    {plans all : List Plan} (ran : Ran L run plans)
    (apart : (plans.map (fun plan => file_stem plan.id) ++ providers.map fun provider => file_stem (planName provider)).Nodup)
    (ok : provider_plans L work run plans providers = .ok (all, after)) :
    Ran L after all ∧ all.map Plan.id = plans.map Plan.id ++ providers.map planName ∧
      ∀ path, '/' ∉ path → after.files path = run.files path := by
  induction providers generalizing run plans with
  | nil =>
    cases ok
    exact ⟨ran, (List.append_nil _).symm, fun _ _ => rfl⟩
  | cons provider providers ih =>
    obtain ⟨⟨plan, next⟩, made, ok⟩ := bind_ok.mp ok
    have added := provider_plan_added made
    rw [List.map_cons, List.append_cons] at apart
    have here : ∀ q ∈ plans, file_stem q.id ≠ file_stem (planName provider) := by
      intro q listed same
      have parted := (List.nodup_append.mp (List.nodup_append.mp apart).1).2.2
      exact parted _ (List.mem_map_of_mem listed) _ (List.mem_singleton_self _) same
    obtain ⟨ran', ids, own⟩ := ih (ran.add (named_planName provider) added here)
      (by rw [List.map_append, List.map_singleton, added.named]; exact apart) ok
    refine ⟨ran', ?_, fun path kept => (own path kept).trans (frame_own added.frame kept)⟩
    rw [ids, List.map_append, List.map_singleton, added.named, List.map_cons, List.append_assoc]
    rfl

/-! ### Completions in the log -/

theorem value_id {a b : Plan} (same : a.value = b.value) : a.id = b.id := by
  simp only [Plan.value, List.cons_append, Value.object.injEq, List.cons.injEq, Prod.mk.injEq, Value.string.injEq,
    true_and] at same
  exact String.ofList_injective same.1

theorem completion_alone {entries : List Entry} {value : Value} (distinct : (completions entries).Nodup)
    (listed : value ∈ completions entries) :
    ∃ before attempt after, entries = before ++ ⟨attempt, "plan_completed", value⟩ :: after ∧
      ∀ e ∈ before ++ after, "plan_completed" ≠ e.event ∨ value ≠ e.payload := by
  obtain ⟨entry, there, rfl⟩ := List.mem_map.mp listed
  obtain ⟨there, event⟩ := List.mem_filter.mp there
  obtain ⟨before, after, rfl⟩ := List.append_of_mem there
  obtain ⟨attempt, event_, payload⟩ := entry
  obtain rfl : event_ = "plan_completed" := of_decide_eq_true event
  refine ⟨before, attempt, after, rfl, fun e among => ?_⟩
  by_contra both
  obtain ⟨sameEvent, samePayload⟩ := not_or.mp both
  have completes : payload ∈ completions (before ++ after) :=
    List.mem_map.mpr ⟨e, List.mem_filter.mpr ⟨among, decide_eq_true (not_not.mp sameEvent).symm⟩, (not_not.mp samePayload).symm⟩
  have split_ : completions (before ++ ⟨attempt, "plan_completed", payload⟩ :: after) =
      completions before ++ payload :: completions after := by
    simp [completions]
  rw [split_, List.nodup_middle] at distinct
  rw [completions, List.filter_append, List.map_append] at completes
  exact (List.nodup_cons.mp distinct).1 completes

theorem finalise_log_spec (entries : List Entry) (run_id : String) (closing : Closing) :
    ∃ terminal : List Entry, (∀ entry ∈ terminal, entry.event ≠ "plan_completed") ∧
      (finalise_log L (EvidenceLog.create.run entries) run_id closing).1 = EvidenceLog.create.run (entries ++ terminal) := by
  have run_append : ∀ more, EvidenceLog.create.run (entries ++ more) = (EvidenceLog.create.run entries).run more :=
    fun more => List.foldl_append
  let id : Value := .object [("run_id", .string run_id)]
  unfold finalise_log
  dsimp only
  split
  · refine ⟨[⟨closing.completed, "run_completed", id⟩, ⟨closing.incomplete, "evidence_incomplete", id⟩], ?_, ?_⟩
    · simp
    · rw [run_append]
      rfl
  · refine ⟨[⟨closing.completed, "run_completed", id⟩], ?_, ?_⟩
    · simp
    · rw [run_append]
      rfl

theorem evidence_spec (log : EvidenceLog) (run_id : String) (closing : Closing) :
    let (log, evidence) := finalise_log L log run_id closing
    (evidence.records = log.file.count newline ∧ evidence.digest = some (L.sha256_digest log.file) ∨
      evidence.complete = false ∧ evidence.records = 0 ∧ evidence.digest = none) ∧
    (evidence.complete = true → log.writer.pendingGap = none) := by
  unfold finalise_log
  dsimp only
  cases closing.read_back with
  | true =>
    refine ⟨.inl ⟨rfl, rfl⟩, fun complete => ?_⟩
    simpa using complete
  | false => exact ⟨.inr ⟨by simp, rfl, rfl⟩, fun complete => by simp at complete⟩

theorem readDocument_jsonBytes (depth : Nat) (v : Value) :
    readDocument depth (jsonBytes v) = if v.depth ≤ depth then some v else none := by
  have read : readValue (2 * (jsonBytes v).length + 2) depth (pretty v ++ [newline]) = _ :=
    readValue_indented v (ends_cons (by decide)) (by rw [jsonBytes, List.length_append, pretty]; omega)
  obtain ⟨b, rest, same, starts⟩ := writeIndented_head 0 v
  have token : skipSpace (jsonBytes v) = jsonBytes v := by
    rw [jsonBytes, pretty, same, List.cons_append, skipSpace_token (startsValue_token starts)]
  rw [readDocument, token, show readValue _ depth (jsonBytes v) = _ from read]
  split <;> rfl

theorem write_json_ok {files after : Files} {path : Path} {value : Value} {write : Write}
    (ok : write_json files path value write = .ok after) :
    after path = some (jsonBytes value) ∧ ∀ p, p ≠ path → after p = files p := by
  unfold write_json at ok
  have done := @write_bytes_done files path (jsonBytes value) write
  have others := fun p => @write_bytes_other files path p (jsonBytes value) write
  generalize write_bytes files path (jsonBytes value) write = wrote at ok done others
  obtain ⟨wrote, failure⟩ := wrote
  cases failure with
  | some error => cases ok
  | none =>
    cases ok
    exact ⟨done rfl, others⟩

theorem write_replay_ok {files after : Files} {plans : List Plan} {replay : Option ((List Plan → Value) × Write)}
    (ok : write_replay files plans replay = .ok after) : ∀ p, p ≠ REPLAY → after p = files p := by
  cases replay with
  | none =>
    cases ok
    exact fun _ _ => rfl
  | some replay => exact (write_json_ok ok).2

theorem Plan.Kept.own_files {plan : Plan} {files after : Files} (kept : plan.Kept L files)
    (same : ∀ path, '/' ∈ path → after path = files path) : plan.Kept L after := by
  have held : ∀ sealed ∈ plan.legs ++ plan.labels, after sealed.reference = files sealed.reference := by
    intro sealed listed
    obtain ⟨kind, at_⟩ := kept.own sealed listed
    exact same _ (at_ ▸ reference_folder kind plan.id)
  exact ⟨kept.named, fun sealed listed => (kept.legs sealed listed).keep (held sealed (List.mem_append_left _ listed)),
    kept.labels.imp_left fun labels sealed listed => (labels sealed listed).keep (held sealed (List.mem_append_right _ listed)),
    kept.own⟩

theorem stems_apart {providers : List (List Char)} (distinct : (providers.map file_stem).Nodup) :
    (file_stem baselineName :: providers.map fun provider => file_stem (planName provider)).Nodup := by
  refine List.nodup_cons.mpr ⟨?_, ?_⟩
  · intro listed
    obtain ⟨provider, _, same⟩ := List.mem_map.mp listed
    rw [file_stem_planName] at same
    have tail : "-only".toList <:+ file_stem baselineName := ⟨file_stem provider, same⟩
    exact absurd tail (by decide)
  · rw [show (fun provider => file_stem (planName provider)) = (· ++ "-only".toList) ∘ file_stem from
      funext file_stem_planName, ← List.map_map]
    exact distinct.map fun a b same => List.append_cancel_right same

def sampleLibraries : Libraries := ⟨fun bytes => String.ofList (bytes.map fun b => Char.ofNat b.toNat), id⟩

def sampleClock : Clock := ⟨"t", "t", "t"⟩

def landed : Attempt := ⟨sampleClock, .ok, sampleClock, .ok⟩

def lost : Attempt := ⟨sampleClock, .ok, sampleClock, .cut 0 "t" "full"⟩

def sampleLabel : Label := ⟨⟨[1], .failed none "full"⟩, ⟨[2], .done⟩, landed, []⟩

def sampleWork (response : Option UInt8) (label : Option Label) (completed : Attempt) : Work :=
  ⟨none, response.map fun byte => ⟨[byte], .done⟩, ⟨[], label, [], [], [], completed⟩⟩

def sampleWorld (label : Option Label) (completed : Attempt) (read_back : Bool) : World where
  run_id := "run"
  manifest := .object []
  staged := .ok ()
  manifest_write := .done
  started := landed
  source_policy := none
  baseline := (sampleWork none label completed).assembly
  work plans _ := sampleWork (some plans.length.toUInt8) none completed
  replay := none
  closing := ⟨landed, landed, read_back⟩
  summary_write := .done
  published := .ok ()

def sampleSuite (providers : List String) : Suite := ⟨providers.map String.toList, .ok (), fun _ => .ok ()⟩

def sampleLines : List Bytes :=
  let gap : Value := PendingGap.payload ⟨"t", "t", "append of plan_completed failed: full"⟩
  [write (record 1 "t" "run_started" (startedPayload sampleLibraries (sampleWorld none lost true))),
    write (record 2 "t" "evidence_gap" gap), write (record 3 "t" "evidence_gap" gap),
    write (record 4 "t" "run_completed" (.object [("run_id", .string "run")]))]

theorem execute_sample {β : Type} {suite : Suite} {world : World} {f : RunReport → Option β} {v : β}
    (is : (execute sampleLibraries suite world).toOption.bind f = some v) :
    ∃ report, execute sampleLibraries suite world = .ok report ∧ f report = some v := by
  cases ran : execute sampleLibraries suite world with
  | error error =>
    rw [ran] at is
    cases is
  | ok report =>
    rw [ran] at is
    exact ⟨report, rfl, is⟩

theorem lines_sample : ((execute sampleLibraries (sampleSuite ["exa"]) (sampleWorld none lost true)).toOption.bind fun report =>
    (report.output EVIDENCE).map fun bytes => (fileLines bytes, report.summary.evidence.complete)) = some (sampleLines,
      true) := by
  decide +kernel

theorem label_sample : ((execute sampleLibraries (sampleSuite ["exa"]) (sampleWorld (some sampleLabel) landed true)).toOption.bind
    fun report => (report.summary.plans.flatMap Plan.labels).head?.map fun label => report.output label.reference) =
    some none := by
  decide

theorem unread_sample : ((execute sampleLibraries (sampleSuite ["exa"]) (sampleWorld none landed false)).toOption.bind
    fun report => (report.output EVIDENCE).map fun bytes => (bytes.count newline, report.summary.evidence.records)) =
    some (4, 0) := by
  decide +kernel

theorem replaced_sample : ((execute sampleLibraries (sampleSuite ["skill:a:b", "skill:a-b"])
    (sampleWorld none landed true)).toOption.bind fun report =>
      (report.summary.plans.flatMap Plan.legs).head?.map fun leg =>
        ((report.output leg.reference).map sampleLibraries.sha256_digest, leg.hash)) =
    some (some "\x02", "\x01") := by
  decide

theorem sampleLines_never (payload : Value) : Never (Holds "plan_completed" payload) sampleLines := by
  intro line listed holds
  simp only [sampleLines, List.mem_cons, List.not_mem_nil, or_false] at listed
  obtain rfl | rfl | rfl | rfl := listed <;> exact absurd (holds_cut (List.prefix_refl _) holds).1 (by decide)

structure Truthful (L : Libraries) (report : RunReport) : Prop where
  stated : report.output SUMMARY = some (jsonBytes report.summary.value)
  legs : ∀ plan ∈ report.summary.plans, ∀ sealed ∈ plan.legs, Stands L report.output sealed
  labels : ∀ plan ∈ report.summary.plans, (∀ sealed ∈ plan.labels, Stands L report.output sealed) ∨
    ∃ error, labelGap (Kind.labelled.reference plan.id) error ∈ plan.gaps
  ids : (report.summary.plans.map Plan.id).Nodup
  log : ∃ bytes, report.output EVIDENCE = some bytes ∧
    (report.summary.evidence.records = bytes.count newline ∧ report.summary.evidence.digest = some (L.sha256_digest bytes) ∨
      report.summary.evidence.complete = false ∧ report.summary.evidence.records = 0 ∧ report.summary.evidence.digest = none) ∧
    ∀ plan ∈ report.summary.plans,
      (Never (Holds "plan_completed" plan.value) (fileLines bytes) ∨
        Once (Holds "plan_completed" plan.value) (fileLines bytes)) ∧
      (report.summary.evidence.complete = true → Once (Holds "plan_completed" plan.value) (fileLines bytes) ∨
        ∃ line ∈ fileLines bytes, ∃ gap, Holds "evidence_gap" gap line)
  manifest : ∃ bytes document, report.output MANIFEST = some bytes ∧
    (∀ depth, document.depth ≤ depth → readDocument depth bytes = some document) ∧
    document.get "hash" = .string report.summary.manifest_hash ∧
    report.summary.manifest_hash = canonical_digest L (document.get "manifest")

theorem execute_truthful {suite : Suite} {world : World} {report : RunReport}
    (distinct : (suite.providers.map file_stem).Nodup) (returned : execute L suite world = .ok report) :
    Truthful L report := by
  unfold execute at returned
  split at returned
  · cases returned
  obtain ⟨⟨⟩, _, returned⟩ := bind_ok.mp returned
  obtain ⟨⟨⟩, _, returned⟩ := bind_ok.mp returned
  obtain ⟨⟨⟩, _, returned⟩ := bind_ok.mp returned
  obtain ⟨first, manifested, returned⟩ := bind_ok.mp returned
  obtain ⟨⟨plans, run⟩, planned, returned⟩ := bind_ok.mp returned
  obtain ⟨second, replayed, returned⟩ := bind_ok.mp returned
  obtain ⟨terminal, others, closed⟩ := @finalise_log_spec L run.entries world.run_id world.closing
  have evidence := @evidence_spec L (EvidenceLog.create.run run.entries) world.run_id world.closing
  dsimp only at returned
  generalize finalise_log L (EvidenceLog.create.run run.entries) world.run_id world.closing = final at *
  obtain ⟨log, evidence_⟩ := final
  obtain ⟨counted, owed⟩ := evidence
  obtain ⟨third, summarised, returned⟩ := bind_ok.mp returned
  obtain ⟨⟨⟩, _, returned⟩ := bind_ok.mp returned
  cases returned
  obtain ⟨manifestAt, _⟩ := write_json_ok manifested
  obtain ⟨summaryAt, summaryOthers⟩ := write_json_ok summarised
  have replayOthers := write_replay_ok replayed
  -- The baseline seals nothing, and its plan is the first.
  have baseline := @record_plan_added L _ named_baseline ⟨first, [⟨world.started, "run_started", startedPayload L world⟩]⟩ _
    none none world.baseline
    ⟨fun _ listed => (nomatch listed), fun _ listed => (nomatch listed), .refl _ _, rfl⟩
  have ran : Ran L ⟨first, [⟨world.started, "run_started", startedPayload L world⟩]⟩ [] :=
    ⟨fun _ listed => (nomatch listed), rfl⟩
  have ran := ran.add named_baseline baseline fun _ listed => (nomatch listed)
  have apart := stems_apart distinct
  obtain ⟨ran, ids, own⟩ := provider_plans_ran ran (by simpa [baseline.named] using apart) planned
  have named : (plans.map Plan.id).Nodup := by
    refine List.Nodup.of_map file_stem ?_
    rw [ids, List.nil_append, List.map_singleton, baseline.named, List.map_append, List.map_singleton, List.map_map]
    exact apart
  have values : (completions run.entries).Nodup := by
    rw [ran.completed]
    refine List.pairwise_map.mpr ((List.pairwise_map.mp named).imp ?_)
    exact fun different same => different (value_id same)
  have published : ∀ path, path ≠ EVIDENCE → path ≠ SUMMARY → path ≠ REPLAY →
      third.write EVIDENCE log.file path = run.files path := by
    intro path notEvidence notSummary notReplay
    rw [write_other _ _ notEvidence, summaryOthers path notSummary, replayOthers path notReplay]
  have foldered : ∀ path, '/' ∈ path → third.write EVIDENCE log.file path = run.files path := by
    intro path slash
    refine published path ?_ ?_ ?_ <;> rintro rfl <;> exact absurd slash (by decide)
  have kept : ∀ plan ∈ plans, plan.Kept L (third.write EVIDENCE log.file) :=
    fun plan listed => (ran.kept plan listed).own_files foldered
  refine ⟨?_, fun plan listed => (kept plan listed).legs, fun plan listed => (kept plan listed).labels, named, ?_, ?_⟩
  · show third.write EVIDENCE log.file SUMMARY = _
    rw [write_other _ _ (by decide), summaryAt]
  · refine ⟨log.file, ?_, counted, fun plan listed => ?_⟩
    · show third.write EVIDENCE log.file EVIDENCE = _
      exact write_same _ _ _
    · have completion : plan.value ∈ completions run.entries := ran.completed ▸ List.mem_map_of_mem listed
      obtain ⟨before, attempt, after, entries, alone⟩ := completion_alone values completion
      obtain ⟨once, lost⟩ := run_once before (after ++ terminal) ⟨attempt, "plan_completed",
        plan.value⟩ (show "plan_completed" ≠ "evidence_gap" by decide) (by
        rw [← List.append_assoc]
        refine List.forall_mem_append.mpr ⟨alone, fun entry last => .inl fun same => others entry last same.symm⟩)
      rw [entries, List.append_assoc, List.cons_append] at closed
      rw [← closed] at once lost
      refine ⟨once, fun complete => lost.imp_right fun owing => ?_⟩
      obtain pending | ⟨line, there, gap⟩ := owing
      · rw [owed complete] at pending
        cases pending
      · exact ⟨line, there, gap⟩
  · refine ⟨jsonBytes (manifestDocument L world.manifest), manifestDocument L world.manifest, ?_, fun depth fits => ?_,
      rfl, rfl⟩
    · exact (published MANIFEST (by decide) (by decide) (by decide)).trans ((own MANIFEST (by decide)).trans
        ((frame_own baseline.frame (by decide)).trans manifestAt))
    · rw [readDocument_jsonBytes, if_pos fits]

/-- A run of two providers keeps what it says of its files. -/
theorem execute_truthful_two : ∃ report, execute sampleLibraries (sampleSuite ["exa", "valyu"]) (sampleWorld none landed true) =
    .ok report ∧ Truthful sampleLibraries report := by
  obtain ⟨report, ran, _⟩ := @execute_sample Unit (sampleSuite ["exa", "valyu"]) (sampleWorld none landed true)
    (fun _ => some ()) () (by decide)
  exact ⟨report, ran, execute_truthful (by decide) ran⟩

/-- A recovered gap leaves a log complete that lost its completions; a label whose file was not written is still named
with its hash; a log that cannot be read back has no records; and a skill takes the file of another's name. -/
theorem summary_overstates :
    (∃ report, execute sampleLibraries (sampleSuite ["exa"]) (sampleWorld none lost true) = .ok report ∧
      report.summary.evidence.complete = true ∧ ∃ bytes, report.output EVIDENCE = some bytes ∧
        ∀ plan : Plan, Never (Holds "plan_completed" plan.value) (fileLines bytes)) ∧
    (∃ report, execute sampleLibraries (sampleSuite ["exa"]) (sampleWorld (some sampleLabel) landed true) = .ok report ∧
      ∃ plan ∈ report.summary.plans, ∃ label ∈ plan.labels, ¬Stands sampleLibraries report.output label) ∧
    (∃ report, execute sampleLibraries (sampleSuite ["exa"]) (sampleWorld none landed false) = .ok report ∧
      ∃ bytes, report.output EVIDENCE = some bytes ∧ report.summary.evidence.records ≠ bytes.count newline) ∧
    ∃ report, execute sampleLibraries (sampleSuite ["skill:a:b", "skill:a-b"]) (sampleWorld none landed true) = .ok report ∧
      ∃ plan ∈ report.summary.plans, ∃ leg ∈ plan.legs, ¬Stands sampleLibraries report.output leg := by
  refine ⟨?_, ?_, ?_, ?_⟩
  · obtain ⟨report, ran, is⟩ := execute_sample lines_sample
    obtain ⟨bytes, there, both⟩ := Option.map_eq_some_iff.mp is
    obtain ⟨lines, complete⟩ := Prod.mk.inj both
    exact ⟨report, ran, complete, bytes, there, fun plan => lines ▸ sampleLines_never plan.value⟩
  · obtain ⟨report, ran, is⟩ := execute_sample label_sample
    obtain ⟨label, first, absent⟩ := Option.map_eq_some_iff.mp is
    obtain ⟨plan, listed, named⟩ := List.mem_flatMap.mp (List.mem_of_mem_head? first)
    refine ⟨report, ran, plan, listed, label, named, ?_⟩
    rintro ⟨bytes, there, _⟩
    rw [absent] at there
    cases there
  · obtain ⟨report, ran, is⟩ := execute_sample unread_sample
    obtain ⟨bytes, there, both⟩ := Option.map_eq_some_iff.mp is
    obtain ⟨counted, records⟩ := Prod.mk.inj both
    exact ⟨report, ran, bytes, there, by rw [counted, records]; decide⟩
  · obtain ⟨report, ran, is⟩ := execute_sample replaced_sample
    obtain ⟨leg, first, both⟩ := Option.map_eq_some_iff.mp is
    obtain ⟨now, then_⟩ := Prod.mk.inj both
    obtain ⟨plan, listed, named⟩ := List.mem_flatMap.mp (List.mem_of_mem_head? first)
    refine ⟨report, ran, plan, listed, leg, named, ?_⟩
    rintro ⟨bytes, there, hash⟩
    rw [there, Option.map_some, hash, then_] at now
    exact absurd now (by decide)

end CommonMeasure.Published
