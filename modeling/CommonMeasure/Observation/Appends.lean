import CommonMeasure.Evidence.Torn
import CommonMeasure.Observation.Host

namespace CommonMeasure.Observation

open Json Evidence

def heldRecords (J : Reader) (file : Bytes) : List (Value × Nat) := placed J 0 (fileLines file)

def logRecords (J : Reader) (file : Bytes) : List Value := (heldRecords J file).map Prod.fst

def isGap (record : Value) : Prop := record.get "event" = .string "evidence_gap"

def Grew (J : Reader) (before after : Bytes) (added : List Value) : Prop :=
  before <+: after ∧ ∃ new gaps more, heldRecords J after = heldRecords J before ++ new ∧
    new.map Prod.fst = gaps ++ added ++ more ∧ (∀ gap ∈ gaps, isGap gap) ∧ ∀ gap ∈ more, isGap gap

section

variable {J : Reader} {file : Bytes} {values : List Value}

theorem cut_reads {value read : Value} (held : J.Holds value) (object : ∃ members, value = .object members) {piece : Bytes}
    (cut : piece <+: write value) (reads : J.fromSlice piece = some read) : read = value ∧ piece = write value := by
  obtain ⟨members, rfl⟩ := object
  by_cases whole : piece = write (.object members)
  · rw [whole, J.read_write _ held] at reads
    split at reads
    · exact ⟨(Option.some.inj reads).symm, whole⟩
    · cases reads
  · rw [J.read_cut members piece cut whole] at reads
    cases reads

theorem placed_cuts {at_ : Nat} {pieces : List Bytes}
    (objects : ∀ value ∈ values, J.Holds value ∧ ∃ members, value = .object members)
    (cuts : ∀ (i : Nat) (piece : Bytes), pieces[i]? = some piece → ∃ line, (values.map write)[i]? = some line ∧
      piece <+: line) :
    ((placed J at_ pieces).map Prod.fst).Sublist values := by
  induction pieces generalizing at_ values with
  | nil => simp [placed]
  | cons piece rest ih =>
    obtain ⟨line, first, cut⟩ := cuts 0 piece rfl
    cases values with
    | nil => simp at first
    | cons value values =>
      obtain rfl : write value = line := by simpa using first
      rw [List.forall_mem_cons] at objects
      have later := @ih values (at_ + (piece.length + 1)) objects.2 fun i piece found => cuts (i + 1) piece found
      rw [placed, List.map_append]
      cases reads : J.fromSlice piece with
      | none => exact later.cons value
      | some read =>
        obtain ⟨rfl, _⟩ := cut_reads objects.1.1 objects.1.2 cut reads
        exact later.cons_cons read

theorem placed_whole {at_ : Nat} (entries : ∀ value ∈ values, Evidence.Entry J value) :
    (placed J at_ (values.map write)).map Prod.fst = values := by
  induction values generalizing at_ with
  | nil => rfl
  | cons value rest ih =>
    rw [List.forall_mem_cons] at entries
    rw [List.map_cons, placed, entries.1.read, List.map_append, ih entries.2]
    rfl

theorem heldRecords_append {cut : Bytes} {pieces : List Bytes} (lines : fileLines (file ++ cut) = fileLines file ++ pieces) :
    heldRecords J (file ++ cut) = heldRecords J file ++ placed J (joinLines (fileLines file)).length pieces := by
  unfold heldRecords
  rw [lines, placed_append, Nat.zero_add]

theorem gaps_object {clock : Clock} (bounded : file.length < maxFile) :
    ∀ value ∈ gapOf file clock, J.Holds value ∧ ∃ members, value = .object members := by
  intro value listed
  have entry : Evidence.Entry J value := gapOf_entry bounded value listed
  exact ⟨entry.held, entry.object⟩

theorem grew_cut (bounded : file.length < maxFile) {clock : Clock} {value : Value} (held : J.Holds value)
    (object : ∃ members, value = .object members) {cut : Bytes}
    (prefixed : cut <+: opening (splitLines file).2 ++ joinLines ((gapOf file clock ++ [value]).map write)) :
    Grew J file (file ++ cut) [] ∨ Grew J file (file ++ cut) [value] := by
  have free : ∀ line ∈ (gapOf file clock ++ [value]).map write, LineFree line := by
    intro line listed
    obtain ⟨other, _, rfl⟩ := List.mem_map.mp listed
    exact write_lineFree other
  obtain ⟨_, pieces, lines, cuts⟩ := fileLines_cut free prefixed
  have objects : ∀ other ∈ gapOf file clock ++ [value], J.Holds other ∧ ∃ members, other = .object members := by
    intro other listed
    rcases List.mem_append.mp listed with gap | own
    · exact gaps_object bounded other gap
    · rw [List.mem_singleton.mp own]
      exact ⟨held, object⟩
  obtain ⟨gaps, own, split, gapsIn, ownIn⟩ := List.sublist_append_iff.mp
    (@placed_cuts J _ (joinLines (fileLines file)).length pieces objects cuts)
  have areGaps : ∀ gap ∈ gaps, isGap gap := fun gap listed => gapOf_event gap (gapsIn.subset listed)
  have grown := heldRecords_append (J := J) lines
  rcases List.sublist_singleton.mp ownIn with rfl | rfl
  · exact Or.inl ⟨List.prefix_append _ _, _, gaps, [], grown, by simpa using split, areGaps, by simp⟩
  · exact Or.inr ⟨List.prefix_append _ _, _, gaps, [], grown, by simpa using split, areGaps, by simp⟩

theorem whole_lines {clock : Clock} {value : Value} {bytes : Bytes}
    (bytesIs : bytes = opening (splitLines file).2 ++ joinLines ((gapOf file clock ++ [value]).map write)) :
    splitLines (file ++ bytes) = (fileLines file ++ (gapOf file clock ++ [value]).map write, []) := by
  have free : ∀ line ∈ (gapOf file clock ++ [value]).map write, LineFree line := by
    intro line listed
    obtain ⟨other, _, rfl⟩ := List.mem_map.mp listed
    exact write_lineFree other
  have split : splitLines (file ++ (opening (splitLines file).2 ++ (joinLines _ ++ []))) = _ :=
    splitLines_add rfl free lineFree_nil
  rwa [List.append_nil, ← bytesIs] at split

theorem grew_whole (bounded : file.length < maxFile) {clock : Clock} {value : Value} (entry : Evidence.Entry J value)
    {bytes : Bytes} (bytesIs : bytes = opening (splitLines file).2 ++ joinLines ((gapOf file clock ++ [value]).map write)) :
    Grew J file (file ++ bytes) [value] ∧ write value ∈ (splitLines (file ++ bytes)).1 := by
  have split := whole_lines bytesIs
  have lines : fileLines (file ++ bytes) = fileLines file ++ (gapOf file clock ++ [value]).map write := by
    rw [fileLines, split]
    simp [closed, fileLines]
  have entries : ∀ other ∈ gapOf file clock ++ [value], Evidence.Entry J other := by
    intro other listed
    rcases List.mem_append.mp listed with gap | own
    · exact gapOf_entry bounded other gap
    · rw [List.mem_singleton.mp own]
      exact entry
  refine ⟨⟨List.prefix_append _ _, _, gapOf file clock, [], heldRecords_append lines, ?_, gapOf_event, by simp⟩, ?_⟩
  · rw [placed_whole entries, List.append_nil]
  · rw [split]
    simp

theorem Grew.refl (J : Reader) (file : Bytes) : Grew J file file [] :=
  ⟨List.prefix_refl _, [], [], [], by simp, rfl, by simp, by simp⟩

variable {next : Bytes} {after : Bytes}

theorem Grew.after_gaps (grew : Grew J file next []) (later : Grew J next after values) : Grew J file after values := by
  obtain ⟨first, new, gaps, more, held, split, before, behind⟩ := grew
  obtain ⟨second, newer, gaps', more', held', split', before', behind'⟩ := later
  refine ⟨first.trans second, new ++ newer, gaps ++ more ++ gaps', more', ?_, ?_, ?_, behind'⟩
  · rw [held', held, List.append_assoc]
  · rw [List.map_append, split, split']
    simp
  · simp only [List.mem_append]
    rintro gap ((early | late) | after)
    · exact before gap early
    · exact behind gap late
    · exact before' gap after

theorem Grew.of_gap {gap : Value} (grew : Grew J file after [gap]) (is : isGap gap) : Grew J file after [] := by
  obtain ⟨first, new, gaps, more, held, split, before, behind⟩ := grew
  refine ⟨first, new, gaps ++ [gap], more, held, by simpa using split, ?_, behind⟩
  simp only [List.mem_append, List.mem_singleton]
  rintro other (earlier | rfl)
  · exact before other earlier
  · exact is

end

section

variable {J : Reader} {s : State Unit} {payload : Value}

theorem locked_grew (sound : Evidence.Sound J s) (clock : Clock) (event : String) (held : J.Holds payload) :
    let a := appendLocked (s.writers ()).counted s.file clock event payload
    (∃ n, n < 2 ^ 64 ∧ a.record = record n clock.now event payload) ∧
      (∀ cut, cut <+: a.bytes → Grew J s.file (s.file ++ cut) [] ∨ Grew J s.file (s.file ++ cut) [a.record]) ∧
      (payload.depth < recursionLimit →
        Grew J s.file (s.file ++ a.bytes) [a.record] ∧ write a.record ∈ (splitLines (s.file ++ a.bytes)).1) := by
  obtain ⟨_, isRecord, bytes, _⟩ := appendLocked_spec rfl (sound.counted ()) clock event payload
  rw [mark_eq, ← List.map_singleton, ← List.map_append] at bytes
  have lines := fileLines_length s.file
  have few := closed_one (splitLines s.file).2
  have bounded := sound.bounded
  rw [fileLines_eq] at lines
  have small : (splitLines s.file).1.length + (closed (splitLines s.file).2).length +
      (closed (splitLines s.file).2).length + 1 < 2 ^ 64 := by
    unfold maxFile at bounded
    omega
  dsimp only
  refine ⟨⟨_, small, isRecord⟩, ?_, ?_⟩
  · intro cut prefixed
    rw [bytes] at prefixed
    apply grew_cut bounded _ _ prefixed
    · rw [isRecord]
      exact record_holds small clock.now event held
    · rw [isRecord]
      exact ⟨_, rfl⟩
  · intro shallow
    refine grew_whole bounded ?_ bytes
    rw [isRecord]
    exact record_entry small clock.now event held shallow

theorem append_grew (sound : Evidence.Sound J s) (clock : Clock) (event : String) (held : J.Holds payload) (outcome : Outcome) :
    let after := s.append () clock event payload outcome
    (Grew J s.file after.file [] ∨ ∃ n, n < 2 ^ 64 ∧ Grew J s.file after.file [record n clock.now event payload]) ∧
      (s.returned.length < after.returned.length → payload.depth < recursionLimit → ∃ n, n < 2 ^ 64 ∧
        Grew J s.file after.file [record n clock.now event payload] ∧
        write (record n clock.now event payload) ∈ (splitLines after.file).1) := by
  obtain ⟨⟨n, small, isRecord⟩, cut, whole⟩ := locked_grew sound clock event held
  unfold State.append
  split
  · exact ⟨Or.inl (Grew.refl J s.file), fun impossible => absurd impossible (lt_irrefl _)⟩
  · dsimp only
    rcases State.write_cases s (appendLocked (s.writers ()).counted s.file clock event payload).bytes outcome _ with
      written | unwritten
    · rw [written]
      have either := cut _ (outcome.written_prefix _)
      rw [isRecord] at either whole
      cases outcome with
      | ok => exact ⟨either.imp_right fun grew => ⟨n, small, grew⟩, fun _ shallow => ⟨n, small, whole shallow⟩⟩
      | cut count now error =>
        exact ⟨either.imp_right fun grew => ⟨n, small, grew⟩, fun impossible => absurd impossible (lt_irrefl _)⟩
    · rw [unwritten]
      exact ⟨Or.inl (Grew.refl J s.file), fun impossible => absurd impossible (lt_irrefl _)⟩

theorem flush_grew (sound : Evidence.Sound J s) (clock : Clock) (outcome : Outcome) :
    Grew J s.file (s.flush () clock outcome).file [] := by
  unfold State.flush
  split
  · exact Grew.refl J s.file
  · rename_i gap _
    obtain ⟨⟨n, _, isRecord⟩, cut, _⟩ := locked_grew sound clock "evidence_gap" (gap_holds gap)
    have marked : isGap (appendLocked (s.writers ()).counted s.file clock "evidence_gap" gap.payload).record := by
      unfold isGap
      rw [isRecord, record_event]
    dsimp only
    rcases State.write_cases s (appendLocked (s.writers ()).counted s.file clock "evidence_gap" gap.payload).bytes outcome _ with
      written | unwritten
    · rw [written]
      have either := (cut _ (outcome.written_prefix _)).elim id fun grew => grew.of_gap marked
      cases outcome with
      | ok => exact either
      | cut count now error => exact either
    · rw [unwritten]
      exact Grew.refl J s.file

theorem logAppend_sound (sound : Evidence.Sound J s) {event : String} {members : List (String × Value)} (attempt : Attempt)
    (formed : Formed J (withInstance members attempt.registered)) :
    Evidence.Sound J (logAppend s event members attempt).1 :=
  append_sound (flush_sound sound () attempt.owedClock attempt.owed) () attempt.clock event formed.holds attempt.outcome

theorem logAppend_grew (sound : Evidence.Sound J s) (event : String) {members : List (String × Value)} (attempt : Attempt)
    (formed : Formed J (withInstance members attempt.registered)) :
    let after := logAppend s event members attempt
    let payload := Value.object (withInstance members attempt.registered)
    (Grew J s.file after.1.file [] ∨
        ∃ n, n < 2 ^ 64 ∧ Grew J s.file after.1.file [record n attempt.clock.now event payload]) ∧
      (after.2 = true → payload.depth < recursionLimit → ∃ n, n < 2 ^ 64 ∧
        Grew J s.file after.1.file [record n attempt.clock.now event payload] ∧
        write (record n attempt.clock.now event payload) ∈ (splitLines after.1.file).1) := by
  have flushed := flush_grew sound attempt.owedClock attempt.owed
  obtain ⟨either, whole⟩ := append_grew (flush_sound sound () attempt.owedClock attempt.owed) attempt.clock event
    formed.holds attempt.outcome
  refine ⟨?_, ?_⟩
  · rcases either with nothing | ⟨n, small, grew⟩
    · exact Or.inl (flushed.after_gaps nothing)
    · exact Or.inr ⟨n, small, flushed.after_gaps grew⟩
  · intro done shallow
    obtain ⟨n, small, grew, line⟩ := whole (of_decide_eq_true done) shallow
    exact ⟨n, small, flushed.after_gaps grew, line⟩

end

end CommonMeasure.Observation
