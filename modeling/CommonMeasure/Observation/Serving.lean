import CommonMeasure.Observation.Answers

namespace CommonMeasure.Observation

open Json Evidence

section

variable {J : Reader} {members : List (String × Value)} {n : Nat} {now : Stamp} {event name : String}
  {registered : Option Reference}

@[simp] theorem record_payload (n : Nat) (now : Stamp) (event : String) (payload : Value) :
    (record n now event payload).get "payload" = payload := by
  simp [record, Value.get]

@[simp] theorem eventOf_record (payload : Value) : eventOf (record n now event payload) = some event := by
  unfold eventOf
  rw [record_event]
  rfl

theorem event_only {payload : Value} {other : String} (is : eventOf (record n now event payload) = some other)
    (different : other ≠ event) : False :=
  different (Option.some.inj (is.symm.trans (eventOf_record payload)))

theorem reference_holds (J : Reader) (reference : Reference) : J.Holds reference.value := by
  apply J.holds_object
  · show ["issuer", "id", "revision"].Nodup
    decide
  · simp only [List.forall_mem_cons]
    exact ⟨J.holds_string _, J.holds_string _, J.holds_number _ reference.revision.toNat_lt, by simp⟩

theorem withInstance_formed (formed : Formed J members) : Formed J (withInstance members registered) := by
  cases registered with
  | none => exact formed
  | some reference => exact formed.set (reference_holds J reference)

theorem get_withInstance (formed : Formed J members) (other : name ≠ "instance") :
    (Value.object (withInstance members registered)).get name = (Value.object members).get name := by
  cases registered with
  | none => rfl
  | some reference => exact get_setMember_ne formed.named other

theorem text_recorded (formed : Formed J members) {text : String} (listed : (name, .string text) ∈ members)
    (other : name ≠ "instance") :
    payloadText (record n now event (.object (withInstance members registered))) name = some text := by
  unfold payloadText
  rw [record_payload, get_withInstance formed other, get_of_mem formed.named listed]
  rfl

structure Plain (J : Reader) (members : List (String × Value)) : Prop where
  formed : Formed J members
  shallow : ∀ member ∈ members, member.2.depth ≤ 1

theorem Plain.set (plain : Plain J members) (name : String) {value : Value} (holds : J.Holds value) (few : value.depth ≤ 1) :
    Plain J (setMember members name value) where
  formed := plain.formed.set holds
  shallow := by
    intro member listed
    rcases mem_setMember.mp listed with rfl | ⟨before, _⟩
    · exact few
    · exact plain.shallow member before

theorem Plain.remove (plain : Plain J members) (name : String) : Plain J (swapRemove name members) where
  formed := plain.formed.remove
  shallow member listed := plain.shallow member ((mem_swapRemove plain.formed.named).mp listed).1

theorem Plain.setText (plain : Plain J members) (name text : String) : Plain J (setMember members name (.string text)) :=
  plain.set name (J.holds_string text) (Nat.zero_le _)

theorem Plain.withInstance (plain : Plain J members) : Plain J (withInstance members registered) := by
  cases registered with
  | none => exact plain
  | some reference =>
    exact plain.set _ (reference_holds J reference) (by simp [Reference.value, Value.depth, depthMembers])

theorem Plain.depth (plain : Plain J members) : (Value.object members).depth < recursionLimit := by
  have few := depthMembers_le_iff.mpr plain.shallow
  unfold Value.depth recursionLimit
  omega

variable {generation : String} {cwd policyIdentity : Option String}

theorem detail_holds (J : Reader) (cwd : Option String) : J.Holds (.object [("cwd", orNull cwd)]) := by
  apply J.holds_object
  · simp
  · simp [orNull_holds]

theorem detail_depth (cwd : Option String) : (Value.object [("cwd", orNull cwd)]).depth ≤ 1 := by
  cases cwd <;> simp [orNull, Value.depth, depthMembers]

def boundaryBase (output : List (String × Value)) (generation : String) : List (String × Value) :=
  setMember (setMember (setMember (swapRemove "acquisition_ids" (swapRemove "output_hash" output)) "turn_id"
    (.string generation)) "privacy_level" (.string TURN_PRIVACY_LEVEL)) "privacy_basis"
    (.string "the generation boundary carries identifiers and no conversation text")

theorem boundary_eq : boundary members generation cwd policyIdentity =
    let detailed := setMember (boundaryBase members generation) "detail" (.object [("cwd", orNull cwd)])
    match policyIdentity with
    | some identity => setMember detailed "policy_identity" (.string identity)
    | none => detailed := rfl

theorem base_plain (plain : Plain J members) (generation : String) : Plain J (boundaryBase members generation) :=
  ((((plain.remove _).remove _).setText _ generation).setText _ TURN_PRIVACY_LEVEL).setText _
    "the generation boundary carries identifiers and no conversation text"

theorem boundary_plain (plain : Plain J members) (generation : String) (cwd policyIdentity : Option String) :
    Plain J (boundary members generation cwd policyIdentity) := by
  have detailed := (base_plain plain generation).set "detail" (detail_holds J cwd) (detail_depth cwd)
  rw [boundary_eq]
  cases policyIdentity with
  | none => exact detailed
  | some identity => exact detailed.setText _ identity

theorem get_boundary_base (plain : Plain J members) (detail : name ≠ "detail") (policy : name ≠ "policy_identity") :
    (Value.object (boundary members generation cwd policyIdentity)).get name =
      (Value.object (boundaryBase members generation)).get name := by
  have base := base_plain plain generation
  have detailed := base.set "detail" (detail_holds J cwd) (detail_depth cwd)
  rw [boundary_eq]
  cases policyIdentity with
  | none => exact get_setMember_ne base.formed.named detail
  | some identity =>
    exact (get_setMember_ne detailed.formed.named policy).trans (get_setMember_ne base.formed.named detail)

def ownMembers : List String :=
  ["output_hash", "acquisition_ids", "turn_id", "privacy_level", "privacy_basis", "detail", "policy_identity"]

theorem get_boundary (plain : Plain J members) (other : name ∉ ownMembers) :
    (Value.object (boundary members generation cwd policyIdentity)).get name = (Value.object members).get name := by
  simp only [ownMembers, List.mem_cons, List.not_mem_nil, or_false, not_or] at other
  obtain ⟨hash, acquisitions, turn, level, basis, detail, identity⟩ := other
  have bare := plain.remove "output_hash"
  have barer := bare.remove "acquisition_ids"
  have turned := barer.setText "turn_id" generation
  have leveled := turned.setText "privacy_level" TURN_PRIVACY_LEVEL
  calc (Value.object (boundary members generation cwd policyIdentity)).get name
      = (Value.object (boundaryBase members generation)).get name := get_boundary_base plain detail identity
    _ = (Value.object (swapRemove "acquisition_ids" (swapRemove "output_hash" members))).get name :=
        (get_setMember_ne leveled.formed.named basis).trans
          ((get_setMember_ne turned.formed.named level).trans (get_setMember_ne barer.formed.named turn))
    _ = (Value.object members).get name :=
        (get_swapRemove_ne bare.formed.named acquisitions).trans (get_swapRemove_ne plain.formed.named hash)

theorem boundary_turn (plain : Plain J members) :
    (Value.object (boundary members generation cwd policyIdentity)).get "turn_id" = .string generation := by
  have barer := (plain.remove "output_hash").remove "acquisition_ids"
  have turned := barer.setText "turn_id" generation
  have leveled := turned.setText "privacy_level" TURN_PRIVACY_LEVEL
  rw [get_boundary_base plain (by decide) (by decide)]
  exact (get_setMember_ne leveled.formed.named (by decide)).trans
    ((get_setMember_ne turned.formed.named (by decide)).trans (get_setMember barer.formed.named))

theorem boundary_agrees (plain : Plain J members) {output : Value}
    (same : ∀ name ∈ sharedMembers, (output.get "payload").get name = (Value.object members).get name)
    (run : payloadText output "generation_id" = some generation) :
    Agrees output (record n now event
      (.object (withInstance (boundary members generation cwd policyIdentity) registered))) := by
  have formed := (boundary_plain plain generation cwd policyIdentity).formed
  constructor
  · unfold payloadText at run ⊢
    rw [record_payload, get_withInstance formed (by decide), boundary_turn plain, run]
    rfl
  · intro name shared
    have plainName : name ≠ "instance" ∧ name ∉ ownMembers := by
      revert name
      decide
    rw [record_payload, get_withInstance formed plainName.1, get_boundary plain plainName.2, same name shared]

theorem logAppend_cases {log : State Unit} (sound : Evidence.Sound J log) (event : String) (plain : Plain J members)
    (attempt : Attempt) :
    let after := logAppend log event members attempt
    Evidence.Sound J after.1 ∧ (after.2 = false ∧ Grew J log.file after.1.file [] ∨
      ∃ n, n < 2 ^ 64 ∧ Grew J log.file after.1.file
          [record n attempt.clock.now event (.object (withInstance members attempt.registered))] ∧
        (after.2 = true →
          write (record n attempt.clock.now event (.object (withInstance members attempt.registered))) ∈
            (splitLines after.1.file).1)) := by
  have recorded := @Plain.withInstance _ _ attempt.registered plain
  obtain ⟨either, whole⟩ := logAppend_grew sound event attempt recorded.formed
  refine ⟨logAppend_sound sound attempt recorded.formed, ?_⟩
  cases done : (logAppend log event members attempt).2 with
  | true =>
    obtain ⟨n, small, grew, line⟩ := whole done recorded.depth
    exact Or.inr ⟨n, small, grew, fun _ => line⟩
  | false =>
    rcases either with nothing | ⟨n, small, grew⟩
    · exact Or.inl ⟨rfl, nothing⟩
    · exact Or.inr ⟨n, small, grew, fun impossible => by cases impossible⟩

theorem optedIn_mono {file after : Bytes} (opted : optedIn J file = true) (growth : file <+: after) :
    optedIn J after = true := by
  obtain ⟨line, listed, is⟩ := List.any_eq_true.mp opted
  exact List.any_eq_true.mpr ⟨line, (splitLines_cut growth).subset listed, is⟩

theorem optedIn_of_line {file : Bytes} {payload : Value}
    (entry : Evidence.Entry J (record n now "observations_started" payload))
    (line : write (record n now "observations_started" payload) ∈ (splitLines file).1) : optedIn J file = true := by
  have named : utf8 "observations_started" <:+: write (record n now "observations_started" payload) := by
    have quoted : utf8 "observations_started" <:+: write (.string "observations_started") := by
      rw [write, writeString_plain (by decide +kernel)]
      exact ⟨[34], [34], rfl⟩
    apply quoted.trans
    exact @write_object_value "event" _ _ (List.mem_cons_of_mem _ (List.mem_cons_of_mem _ List.mem_cons_self))
  apply List.any_eq_true.mpr
  refine ⟨_, line, ?_⟩
  rw [entry.read, Option.any_some, record_event]
  simp [named, isText, Value.asStr]

structure Completable (J : Reader) (record : Value) : Prop where
  payload : ∃ members, record.get "payload" = .object members ∧ Plain J members
  run : ∃ generation, payloadText record "generation_id" = some generation
  hash : ∃ hash, payloadText record "output_hash" = some hash ∧ validHash hash = true
  few : ∃ items, (record.get "payload").get "acquisition_ids" = .array items ∧ items.length ≤ 1024

structure Recorded (J : Reader) (file : Bytes) : Prop where
  coherent : Coherent (logRecords J file)
  outputs : ∀ record ∈ logRecords J file, eventOf record = some "output_associated" → Completable J record

variable {file after : Bytes}

theorem mem_grew {added : List Value} (grew : Grew J file after added) {record : Value} (listed : record ∈ logRecords J after) :
    record ∈ logRecords J file ∨ record ∈ added ∨ eventOf record = some "evidence_gap" := by
  obtain ⟨gaps, more, split, before, behind⟩ := grew_records grew
  rw [split] at listed
  simp only [List.mem_append] at listed
  rcases listed with ((earlier | gap) | new) | gap
  · exact Or.inl earlier
  · exact Or.inr (Or.inr (gap_event (before record gap)))
  · exact Or.inr (Or.inl new)
  · exact Or.inr (Or.inr (gap_event (behind record gap)))

theorem grew_mem {added : List Value} (grew : Grew J file after added) {record : Value}
    (listed : record ∈ logRecords J file ∨ record ∈ added) : record ∈ logRecords J after := by
  obtain ⟨gaps, more, split, _, _⟩ := grew_records grew
  rw [split]
  simp only [List.mem_append]
  exact Or.inl (listed.imp_left Or.inl)

theorem Recorded.grew_nothing (recorded : Recorded J file) (grew : Grew J file after []) : Recorded J after where
  coherent := recorded.coherent.grew_nothing grew
  outputs := by
    intro record listed is
    rcases mem_grew grew listed with earlier | new | gap
    · exact recorded.outputs record earlier is
    · cases new
    · exact absurd (is.symm.trans gap) (by decide)

theorem Recorded.grew_one (recorded : Recorded J file) {record : Value} (grew : Grew J file after [record])
    (follows : Follows (logRecords J file) record)
    (output : eventOf record = some "output_associated" → Completable J record) : Recorded J after where
  coherent := recorded.coherent.grew_one grew follows
  outputs := by
    intro other listed is
    rcases mem_grew grew listed with earlier | new | gap
    · exact recorded.outputs other earlier is
    · obtain rfl := List.mem_singleton.mp new
      exact output is
    · exact absurd (is.symm.trans gap) (by decide)

end

end CommonMeasure.Observation
