import CommonMeasure.Observation.Coherent

namespace CommonMeasure.Observation

open Json Evidence

def Index.Answers (J : Reader) {canonicalUuid : String → Bool} (file : Bytes) (index : Index canonicalUuid) : Prop :=
  ∀ atom, index.facts.Knows atom ↔ ∃ held ∈ heldRecords J file, Told canonicalUuid held.1 held.2 atom

section

variable {J : Reader} {canonicalUuid : String → Bool} {digest : Bytes →
    String} {file : Bytes} {index after : Index canonicalUuid}

theorem Index.Sound.checked_exact (exact : Exact J file index.offset index.facts) :
    Exact J file (index.checked digest file).offset (index.checked digest file).facts := by
  rcases checked_cases digest index file with anew | same
  · rw [anew]
    exact reset_exact J digest file
  · rw [same]
    exact exact

theorem catchUp_never {entry : Option Entry} {outcome : Except Unit Nat} {order : Order}
    (caught : index.catchUp J digest file .never order = (after, entry, outcome)) :
    let scanned := (index.checked digest file).scanned J file
    after.offset = scanned.end_.offset ∧ (outcome.toBool = true ↔ scanned.fault = none) := by
  unfold Index.catchUp at caught
  dsimp only at caught
  have sound {scanned : Scanned} : (if scanned.fault.isNone = true then Except.ok scanned.end_.line else
      Except.error () : Except Unit Nat).toBool = true ↔ scanned.fault = none := by
    cases scanned.fault <;> simp [Except.toBool]
  split at caught
  · rw [if_neg (by simp)] at caught
    obtain ⟨rfl, rfl, rfl⟩ := caught
    exact ⟨rfl, sound⟩
  · obtain ⟨rfl, rfl, rfl⟩ := caught
    exact ⟨rfl, sound⟩

theorem catchUp_answers {entry : Option Entry} {outcome : Except Unit Nat} {order : Order} (small : index.facts.Small)
    (exact : Exact J file index.offset index.facts) (bounded : file.length < maxFile)
    (caught : index.catchUp J digest file .never order = (after, entry, outcome)) :
    after.facts.Small ∧ Exact J file after.offset after.facts ∧ (∀ written ∈ entry, written.Correct J canonicalUuid file) ∧
      (outcome.toBool = true → after.Answers J file) := by
  have sound := Index.sound_of_exact small exact
  have checked := @Index.Sound.checked_exact J _ digest _ _ exact
  have level : ¬index.Ahead J digest file .never := id
  obtain ⟨kept, correct, left⟩ := sound.catchUp bounded (Or.inl checked) level caught
  have exactAfter := left (Or.inl rfl)
  obtain ⟨offset, through⟩ := catchUp_never caught
  refine ⟨kept.small, exactAfter, correct, ?_⟩
  intro ok atom
  obtain ⟨start, begins, at_, _⟩ := checked
  obtain ⟨range, ends, reached, _, whole⟩ := scanned_placed (J := J) begins at_
  obtain ⟨terminated, all⟩ := whole (through.mp ok)
  obtain ⟨lines, first, length, knows⟩ := exactAfter
  have same : lines = (splitLines file).1 := by
    rw [← all]
    have lengths : (joinLines lines).length = (joinLines (start ++ range)).length := by rw [← length, offset, reached]
    exact (first.prefix_of_length ends lengths.le).eq_of_length_le
      (ends.prefix_of_length first lengths.ge).length_le
  have every : fileLines file = (splitLines file).1 := by simp [fileLines, closed,
    show (splitLines file).2 = [] from terminated]
  rw [knows, same, Known, establishes_iff, heldRecords, every]

variable (answers : index.Answers J file)

include answers

theorem known_record {atom : Atom} (knows : index.facts.Knows atom) :
    ∃ record ∈ logRecords J file, ∃ at_, Told canonicalUuid record at_ atom := by
  obtain ⟨held, listed, told⟩ := (answers atom).mp knows
  exact ⟨held.1, List.mem_map_of_mem listed, held.2, told⟩

theorem knows_of_record {atom : Atom} {record : Value} (listed : record ∈ logRecords J file)
    (told : ∀ at_, Told canonicalUuid record at_ atom) : index.facts.Knows atom := by
  obtain ⟨held, placed, rfl⟩ := List.mem_map.mp listed
  exact (answers atom).mpr ⟨held, placed, told held.2⟩

omit answers in
theorem lineAt_held {record : Value} {at_ : Nat} (listed : (record, at_) ∈ heldRecords J file) :
    J.fromSlice (lineAt file at_) = some record := by
  obtain ⟨before, line, rest, split, position, reads⟩ := mem_placed listed
  obtain rfl : at_ = (joinLines before).length := by simpa using position
  have tailIs (first : before = (splitLines file).1) (last : closed (splitLines file).2 = line :: rest) :
      lineAt file (joinLines before).length = line := by
    have begins : Begins file before := first ▸ List.prefix_refl _
    obtain ⟨more, lines, left⟩ := begins.drop
    rw [first] at lines
    obtain rfl := List.self_eq_append_right.mp lines
    unfold closed at last
    split at last
    · cases last
    · obtain ⟨same, _⟩ := List.cons.inj last
      rw [lineAt, left]
      exact same
  have within : lineAt file (joinLines before).length = line := by
    rcases List.append_eq_append_iff.mp split with ⟨middle, first, last⟩ | ⟨middle, first, last⟩
    · have few := closed_one (splitLines file).2
      rw [last] at few
      obtain rfl : middle = [] := by
        cases middle with
        | nil => rfl
        | cons => simp at few
      exact tailIs (by simpa using first) last
    · cases middle with
      | nil => exact tailIs (by simpa using first.symm) last.symm
      | cons other middle =>
        obtain ⟨rfl, _⟩ := List.cons.inj last
        have begins : Begins file before := ⟨line :: middle, first.symm⟩
        obtain ⟨more, lines, left⟩ := begins.drop
        rw [first] at lines
        obtain rfl := List.append_cancel_left lines
        rw [lineAt, left]
  rw [within, reads]

def IsOutput (generation output : String) (record : Value) : Prop :=
  eventOf record = some "output_associated" ∧
    (payloadText record "generation_id" = some generation ∨ payloadText record "output_id" = some output)

theorem firstAt_some {generation output : String} {at_ : Nat} (first : index.firstAt generation output = some at_) :
    ∃ record, (record, at_) ∈ heldRecords J file ∧ IsOutput generation output record := by
  have listed := List.min?_mem first
  simp only [List.reduceOption_mem_iff, List.mem_cons, List.not_mem_nil, or_false] at listed
  rcases listed with found | found
  · have at_Most : index.facts.Knows (.generation generation at_) := ⟨at_, found.symm, le_rfl⟩
    obtain ⟨⟨record, start⟩, held, is, run, before⟩ := (answers _).mp at_Most
    obtain ⟨least, same, le⟩ := (answers (.generation generation start)).mpr ⟨_, held, is, run, le_rfl⟩
    obtain rfl : at_ = least := Option.some.inj (found.trans same)
    obtain rfl : start = at_ := Nat.le_antisymm before le
    exact ⟨record, held, is, Or.inl run⟩
  · have at_Most : index.facts.Knows (.output output at_) := ⟨at_, found.symm, le_rfl⟩
    obtain ⟨⟨record, start⟩, held, is, made, before⟩ := (answers _).mp at_Most
    obtain ⟨least, same, le⟩ := (answers (.output output start)).mpr ⟨_, held, is, made, le_rfl⟩
    obtain rfl : at_ = least := Option.some.inj (found.trans same)
    obtain rfl : start = at_ := Nat.le_antisymm before le
    exact ⟨record, held, is, Or.inr made⟩

theorem firstAt_none {generation output : String} (none : index.firstAt generation output = none) :
    ∀ record ∈ logRecords J file, ¬IsOutput generation output record := by
  have empty := List.min?_eq_none_iff.mp none
  have missing {at_ : Nat} (found : some at_ ∈ [index.facts.outputsByGeneration.lookup generation,
      index.facts.outputsById.lookup output]) : False := by
    have member := List.reduceOption_mem_iff.mpr found
    rw [empty] at member
    cases member
  rintro record listed ⟨is, run | made⟩
  · obtain ⟨⟨_, start⟩, held, rfl⟩ := List.mem_map.mp listed
    obtain ⟨first, found, _⟩ := (answers (.generation generation start)).mpr ⟨_, held, is, run, le_rfl⟩
    exact missing (List.mem_cons.mpr (Or.inl found.symm))
  · obtain ⟨⟨_, start⟩, held, rfl⟩ := List.mem_map.mp listed
    obtain ⟨first, found, _⟩ := (answers (.output output start)).mpr ⟨_, held, is, made, le_rfl⟩
    exact missing (List.mem_cons_of_mem _ (List.mem_singleton.mpr found.symm))

theorem firstOutput_cases (generation output : String) :
    (index.firstOutput J digest file generation output = (index, .ok none) ∧
        ∀ record ∈ logRecords J file, ¬IsOutput generation output record) ∨
      ∃ record ∈ logRecords J file, IsOutput generation output record ∧
        index.firstOutput J digest file generation output = (index, .ok (some (record.get "payload"))) := by
  unfold Index.firstOutput
  cases first : index.firstAt generation output with
  | none => exact Or.inl ⟨rfl, firstAt_none answers first⟩
  | some at_ =>
    obtain ⟨record, held, is, named⟩ := firstAt_some answers first
    have read : outputPayload J file generation output at_ = some (record.get "payload") := by
      have event : isText (record.get "event") "output_associated" = true := decide_eq_true is
      have names : (isText ((record.get "payload").get "generation_id") generation ||
          isText ((record.get "payload").get "output_id") output) = true := by
        simpa [isText, payloadText] using named
      unfold outputPayload
      rw [lineAt_held held, Option.filter_some, if_pos event, Option.map_some, Option.filter_some, if_pos names]
    refine Or.inr ⟨record, List.mem_map_of_mem held, ⟨is, named⟩, ?_⟩
    dsimp only
    rw [read]

end

end CommonMeasure.Observation
