import CommonMeasure.Evidence.Log

/-!
# Writers on one log

Any number of writers append to one log and anyone may repair its tail, one at a time under its
lock.
-/

namespace CommonMeasure

def Json.Reader.Document (J : Json.Reader) := {value : Json.Value // J.Holds value}

namespace Evidence
open Json

structure PendingGap where
  from_ : Stamp
  to_ : Stamp
  detail : String

structure Writer where
  counted : Counted
  pendingGap : Option PendingGap

/-- A writer as `open_append` makes it. -/
def Writer.opened : Writer := ⟨default, none⟩

def Writer.noteWriteFailure (writer : Writer) (now : Stamp) (detail : String) : Writer :=
  match writer.pendingGap with
  | some gap => { writer with pendingGap := some { gap with to_ := now } }
  | none => { writer with pendingGap := some ⟨now, now, detail⟩ }

def PendingGap.payload (gap : PendingGap) : Value :=
  .object [("reason", writeFailed), ("from", .string gap.from_), ("to", .string gap.to_), ("detail", .string gap.detail)]

/-- How a write ended: whole and synced, or after `bytes` bytes with an error at `now`. -/
inductive Outcome where
  | ok
  | cut (bytes : Nat) (now : Stamp) (error : String)

def Outcome.written : Outcome → Bytes → Bytes
  | .ok, bytes => bytes
  | .cut count _ _, bytes => bytes.take count

inductive Event (J : Reader) (ω : Type) where
  | append (writer : ω) (clock : Clock) (event : String) (payload : J.Document) (outcome : Outcome)
  | flush (writer : ω) (clock : Clock) (outcome : Outcome)
  | repair (clock : Clock) (outcome : Outcome)
  | note (writer : ω) (now : Stamp) (detail : String)

structure State (ω : Type) where
  file : Bytes
  writers : ω → Writer
  /-- The appends that returned, in order: the number returned and the record appended. -/
  returned : List (Nat × Value)
  /-- The records of appends that did not return, cut past their closing brace. -/
  interrupted : List Value

def State.created (ω : Type) : State ω := ⟨[], fun _ => .opened, [], []⟩

section

variable {J : Reader} {ω : Type}

def State.write (s : State ω) (bytes : Bytes) (outcome : Outcome) (next : Bytes → State ω) : State ω :=
  if s.file.length + (outcome.written bytes).length < maxFile then next (s.file ++ outcome.written bytes) else s

theorem State.write_room {s : State ω} {bytes : Bytes} {outcome : Outcome} {next : Bytes → State ω}
    (room : s.file.length + (outcome.written bytes).length < maxFile) :
    s.write bytes outcome next = next (s.file ++ outcome.written bytes) :=
  if_pos room

theorem State.write_cases (s : State ω) (bytes : Bytes) (outcome : Outcome) (next : Bytes → State ω) :
    s.write bytes outcome next = next (s.file ++ outcome.written bytes) ∨ s.write bytes outcome next = s := by
  unfold State.write
  split
  · exact Or.inl rfl
  · exact Or.inr rfl

variable [DecidableEq ω]

def State.setWriter (s : State ω) (writer : ω) (value : Writer) : ω → Writer :=
  fun other => if other = writer then value else s.writers other

/-- The locked section of an `append`. -/
def State.append (s : State ω) (writer : ω) (clock : Clock) (event : String) (payload : Value) (outcome : Outcome) :
    State ω :=
  if (s.writers writer).pendingGap.isSome then s
  else
    let a := appendLocked (s.writers writer).counted s.file clock event payload
    s.write a.bytes outcome fun file =>
      match outcome with
      | .ok => { s with
          file, writers := s.setWriter writer ⟨a.counted, none⟩, returned := s.returned ++ [(a.sequence, a.record)] }
      | .cut count now error => { s with
          file
          writers := s.setWriter writer
            ((s.writers writer).noteWriteFailure now ("append of " ++ event ++ " failed: " ++ error))
          interrupted := s.interrupted ++ if a.bytes.length ≤ count + 1 then [a.record] else [] }

def State.flush (s : State ω) (writer : ω) (clock : Clock) (outcome : Outcome) : State ω :=
  match (s.writers writer).pendingGap with
  | none => s
  | some gap =>
    let a := appendLocked (s.writers writer).counted s.file clock "evidence_gap" gap.payload
    s.write a.bytes outcome fun file =>
      match outcome with
      | .ok => { s with file, writers := s.setWriter writer ⟨a.counted, none⟩ }
      | .cut _ now _ => { s with
          file, writers := s.setWriter writer { s.writers writer with pendingGap := some { gap with to_ := now } } }

def State.repair (s : State ω) (clock : Clock) (outcome : Outcome) : State ω :=
  match repairTornTail s.file clock with
  | none => s
  | some (_, bytes) => s.write bytes outcome fun file => { s with file }

def step (s : State ω) : Event J ω → State ω
  | .append writer clock event payload outcome => s.append writer clock event payload.1 outcome
  | .flush writer clock outcome => s.flush writer clock outcome
  | .repair clock outcome => s.repair clock outcome
  | .note writer now detail => { s with writers := s.setWriter writer ((s.writers writer).noteWriteFailure now detail) }

def run (s : State ω) (events : List (Event J ω)) : State ω := events.foldl step s

end

/-! ### Records -/

theorem gap_holds {J : Reader} (gap : PendingGap) : J.Holds gap.payload := by
  apply J.holds_object
  · show ["reason", "from", "to", "detail"].Nodup
    decide
  · simp only [List.forall_mem_cons]
    exact ⟨J.holds_string _, J.holds_string _, J.holds_string _, J.holds_string _, by simp⟩

/-- A line written as line `n`: a record that says so, or a cut of one. -/
def Written (J : Reader) (n : Nat) (line : Bytes) : Prop :=
  n < 2 ^ 64 ∧ ∃ timestamp event payload, J.Holds payload ∧ line <+: write (record n timestamp event payload)

theorem Written.seq {J : Reader} {n : Nat} {line : Bytes} {value : Value} (written : Written J n line)
    (parsed : J.fromSlice line = some value) : value.get "seq" = .number (.ofNat n) := by
  obtain ⟨small, timestamp, event, payload, held, cut⟩ := written
  by_cases whole : line = write (record n timestamp event payload)
  · rw [whole, J.read_write _ (record_holds small timestamp event held)] at parsed
    split at parsed
    · rw [← Option.some.inj parsed, record_seq]
    · cases parsed
  · rw [J.read_cut _ _ cut whole] at parsed
    cases parsed

structure Sound (J : Reader) {ω : Type} (s : State ω) : Prop where
  bounded : s.file.length < maxFile
  numbered : ∀ (i : Nat) (line : Bytes), (fileLines s.file)[i]? = some line → Written J (i + 1) line
  counted : ∀ writer, Counts s.file (s.writers writer).counted
  returned : ∀ a ∈ s.returned, 0 < a.1 ∧ a.2.get "seq" = .number (.ofNat a.1) ∧
    (splitLines s.file).1[a.1 - 1]? = some (write a.2)

theorem created_sound (J : Reader) (ω : Type) : Sound J (State.created ω) where
  bounded := by
    show 0 < maxFile
    decide
  numbered := by
    intro i line found
    simp [State.created, fileLines, closed] at found
  counted _ := counts_default _
  returned := by simp [State.created]

section

variable {J : Reader} {ω : Type} {s : State ω}

theorem Sound.lines_cut (sound : Sound J s) {cut : Bytes} {added : List Bytes}
    (written : ∀ (i : Nat) (line : Bytes), added[i]? = some line → Written J ((fileLines s.file).length + i + 1) line)
    (prefixed : cut <+: opening (splitLines s.file).2 ++ joinLines added) :
    (splitLines s.file).1 <+: (splitLines (s.file ++ cut)).1 ∧
      ∀ (i : Nat) (line : Bytes), (fileLines (s.file ++ cut))[i]? = some line → Written J (i + 1) line := by
  have free : ∀ line ∈ added, LineFree line := by
    intro line member
    obtain ⟨i, found⟩ := List.getElem?_of_mem member
    obtain ⟨_, timestamp, event, payload, _, cut⟩ := written i line found
    exact (write_lineFree _).cut cut
  obtain ⟨kept, pieces, same, cuts⟩ := fileLines_cut free prefixed
  refine ⟨kept, ?_⟩
  intro i line found
  rw [same, List.getElem?_append] at found
  split at found
  · exact sound.numbered i line found
  · rename_i past
    obtain ⟨whole, inAdded, cut⟩ := cuts _ _ found
    obtain ⟨small, timestamp, event, payload, held, inside⟩ := written _ _ inAdded
    have index : (fileLines s.file).length + (i - (fileLines s.file).length) + 1 = i + 1 := by omega
    rw [index] at small inside
    exact ⟨small, timestamp, event, payload, held, cut.trans inside⟩

theorem Sound.returned_kept (sound : Sound J s) {file : Bytes}
    (kept : (splitLines s.file).1 <+: (splitLines file).1) :
    ∀ a ∈ s.returned, 0 < a.1 ∧ a.2.get "seq" = .number (.ofNat a.1) ∧ (splitLines file).1[a.1 - 1]? = some (write a.2) := by
  intro a member
  obtain ⟨positive, seq, found⟩ := sound.returned a member
  obtain ⟨more, same⟩ := kept
  refine ⟨positive, seq, ?_⟩
  rw [← same, List.getElem?_append_left (List.getElem?_eq_some_iff.mp found).1, found]

theorem Sound.mark_written (sound : Sound J s) (clock : Clock) :
    ∀ (i : Nat) (line : Bytes), (mark (splitLines s.file).1.length (splitLines s.file).2 clock)[i]? = some line →
      Written J ((fileLines s.file).length + i + 1) line := by
  intro i line found
  have bounded := sound.bounded
  have length := fileLines_length s.file
  have lines := fileLines_eq s.file
  have parts := splitLines_length s.file
  unfold maxFile at bounded
  unfold mark at found
  unfold closed at lines
  split at found
  · cases found
  · rename_i torn
    rw [if_neg torn, List.length_singleton] at lines
    obtain ⟨zero, rfl⟩ := List.getElem?_eq_some_iff.mp found
    have first : i = 0 := by simpa using zero
    subst first
    have small : (splitLines s.file).2.length < 2 ^ 64 := by omega
    obtain ⟨timestamp, payload, held, same⟩ := tornGap_holds J small clock ((splitLines s.file).1.length + 2)
    refine ⟨by omega, timestamp, "evidence_gap", payload, held, ?_⟩
    rw [lines, ← same]
    exact List.prefix_refl _

theorem Sound.append_written (sound : Sound J s) {counted : Counted} (counts : Counts s.file counted) (clock : Clock)
    (event : String) {payload : Value} (held : J.Holds payload) :
    ∀ (i : Nat) (line : Bytes), (mark (splitLines s.file).1.length (splitLines s.file).2 clock ++
        [write (appendLocked counted s.file clock event payload).record])[i]? = some line →
      Written J ((fileLines s.file).length + i + 1) line := by
  intro i line found
  have bounded := sound.bounded
  have length := fileLines_length s.file
  have lines := fileLines_eq s.file
  have marks := mark_length (splitLines s.file).2 (splitLines s.file).1.length clock
  have few := closed_one (splitLines s.file).2
  unfold maxFile at bounded
  rw [List.getElem?_append] at found
  split at found
  · exact sound.mark_written clock i line found
  · rename_i past
    obtain ⟨zero, rfl⟩ := List.getElem?_eq_some_iff.mp found
    have last : i = (closed (splitLines s.file).2).length := by
      rw [List.length_singleton] at zero
      omega
    obtain ⟨_, record, _⟩ := appendLocked_spec rfl counts clock event payload
    rw [List.getElem_singleton, record, last, lines]
    exact ⟨by omega, clock.now, event, payload, held, List.prefix_refl _⟩

theorem Outcome.written_prefix (outcome : Outcome) (bytes : Bytes) : outcome.written bytes <+: bytes := by
  cases outcome with
  | ok => exact List.prefix_refl _
  | cut count now error => exact List.take_prefix _ _

theorem mark_free (lines : Nat) (tail : Bytes) (clock : Clock) : ∀ line ∈ mark lines tail clock, LineFree line := by
  intro line member
  unfold mark at member
  split at member
  · cases member
  · rw [List.mem_singleton.mp member]
    exact write_lineFree _

theorem marked_free (lines : Nat) (tail : Bytes) (clock : Clock) (record : Value) :
    ∀ line ∈ mark lines tail clock ++ [write record], LineFree line :=
  List.forall_mem_append.mpr ⟨mark_free lines tail clock, List.forall_mem_singleton.mpr (write_lineFree record)⟩

theorem append_lines {file : Bytes} {counted : Counted} (counts : Counts file counted) (clock : Clock) (event : String)
    (payload : Value) :
    splitLines (file ++ (appendLocked counted file clock event payload).bytes) =
      (fileLines file ++ (mark (splitLines file).1.length (splitLines file).2 clock ++
        [write (appendLocked counted file clock event payload).record]), []) := by
  obtain ⟨_, _, bytes, _⟩ := appendLocked_spec rfl counts clock event payload
  have free := marked_free (splitLines file).1.length (splitLines file).2 clock
    (appendLocked counted file clock event payload).record
  have added : splitLines (file ++ (opening (splitLines file).2 ++ (joinLines _ ++ []))) = _ :=
    splitLines_add rfl free lineFree_nil
  rw [List.append_nil, ← bytes] at added
  rw [added, fileLines]

theorem append_returned {file : Bytes} {counted : Counted} (counts : Counts file counted) (clock : Clock) (event : String)
    (payload : Value) :
    0 < (appendLocked counted file clock event payload).sequence ∧
      (appendLocked counted file clock event payload).record.get "seq" =
        .number (.ofNat (appendLocked counted file clock event payload).sequence) ∧
      (splitLines (file ++ (appendLocked counted file clock event payload).bytes)).1[
        (appendLocked counted file clock event payload).sequence - 1]? =
          some (write (appendLocked counted file clock event payload).record) := by
  obtain ⟨sequence, record, _⟩ := appendLocked_spec rfl counts clock event payload
  have marks := mark_length (splitLines file).2 (splitLines file).1.length clock
  have lines := fileLines_eq file
  refine ⟨by omega, by rw [record, sequence, record_seq], ?_⟩
  rw [append_lines counts]
  have index : (appendLocked counted file clock event payload).sequence - 1 =
      (fileLines file ++ mark (splitLines file).1.length (splitLines file).2 clock).length := by
    rw [List.length_append, marks]
    omega
  rw [index, ← List.append_assoc, List.getElem?_append_right le_rfl, Nat.sub_self]
  rfl

theorem Sound.write (sound : Sound J s) {bytes : Bytes} {outcome : Outcome} {added : List Bytes}
    (bytesIs : bytes = opening (splitLines s.file).2 ++ joinLines added)
    (written : ∀ (i : Nat) (line : Bytes), added[i]? = some line → Written J ((fileLines s.file).length + i + 1) line)
    {next : Bytes → State ω} (file : ∀ file, (next file).file = file)
    (counted : ∀ writer, Counts (s.file ++ outcome.written bytes) ((next (s.file ++ outcome.written bytes)).writers writer).counted)
    (returned : ∀ a ∈ (next (s.file ++ outcome.written bytes)).returned, a ∈ s.returned ∨
      0 < a.1 ∧ a.2.get "seq" = .number (.ofNat a.1) ∧
        (splitLines (s.file ++ outcome.written bytes)).1[a.1 - 1]? = some (Json.write a.2)) :
    Sound J (s.write bytes outcome next) := by
  unfold State.write
  split
  · rename_i room
    have prefixed : outcome.written bytes <+: opening (splitLines s.file).2 ++ joinLines added := by
      rw [← bytesIs]
      exact outcome.written_prefix bytes
    obtain ⟨kept, numbered⟩ := sound.lines_cut written prefixed
    refine ⟨?_, ?_, ?_, ?_⟩
    · rw [file, List.length_append]
      exact room
    · rw [file]
      exact numbered
    · rw [file]
      exact counted
    · rw [file]
      intro a member
      rcases returned a member with earlier | now
      · exact sound.returned_kept kept a earlier
      · exact now
  · exact sound

section

variable [DecidableEq ω]

theorem Sound.counts_setWriter (sound : Sound J s) {bytes : Bytes} {writer : ω} {value : Writer}
    (counts : Counts (s.file ++ bytes) value.counted) :
    ∀ other, Counts (s.file ++ bytes) (s.setWriter writer value other).counted := by
  intro other
  unfold State.setWriter
  split
  · exact counts
  · exact (sound.counted other).append bytes

@[simp] theorem noteWriteFailure_counted (writer : Writer) (now : Stamp) (detail : String) :
    (writer.noteWriteFailure now detail).counted = writer.counted := by
  unfold Writer.noteWriteFailure
  split <;> rfl

theorem append_sound (sound : Sound J s) (writer : ω) (clock : Clock) (event : String) {payload : Value}
    (held : J.Holds payload) (outcome : Outcome) : Sound J (s.append writer clock event payload outcome) := by
  unfold State.append
  split
  · exact sound
  · have counts := sound.counted writer
    obtain ⟨_, _, bytes, after⟩ := appendLocked_spec rfl counts clock event payload
    have lines := sound.append_written counts clock event held
    cases outcome with
    | ok =>
      apply sound.write bytes lines (fun _ => rfl) (sound.counts_setWriter after)
      intro a member
      rcases List.mem_append.mp member with earlier | now
      · exact Or.inl earlier
      · rw [List.mem_singleton.mp now]
        exact Or.inr (append_returned counts clock event payload)
    | cut count now error =>
      apply sound.write bytes lines (fun _ => rfl)
      · apply sound.counts_setWriter
        rw [noteWriteFailure_counted]
        exact counts.append _
      · intro a member
        exact Or.inl member

theorem flush_sound (sound : Sound J s) (writer : ω) (clock : Clock) (outcome : Outcome) :
    Sound J (s.flush writer clock outcome) := by
  unfold State.flush
  split
  · exact sound
  · rename_i gap _
    have counts := sound.counted writer
    obtain ⟨_, _, bytes, after⟩ := appendLocked_spec rfl counts clock "evidence_gap" gap.payload
    have lines := sound.append_written counts clock "evidence_gap" (gap_holds gap)
    cases outcome with
    | ok => exact sound.write bytes lines (fun _ => rfl) (sound.counts_setWriter after) (fun _ => Or.inl)
    | cut count now error =>
      exact sound.write bytes lines (fun _ => rfl) (sound.counts_setWriter (counts.append _)) (fun _ => Or.inl)

omit [DecidableEq ω] in
theorem repair_sound (sound : Sound J s) (clock : Clock) (outcome : Outcome) : Sound J (s.repair clock outcome) := by
  unfold State.repair
  rw [repairTornTail_spec rfl]
  split
  · exact sound
  · rename_i tear bytes repaired
    split at repaired
    · cases repaired
    · obtain ⟨rfl, rfl⟩ := Prod.mk.inj (Option.some.inj repaired)
      exact sound.write rfl (sound.mark_written clock) (fun _ => rfl) (fun other => (sound.counted other).append _)
        (fun _ => Or.inl)

theorem step_sound (sound : Sound J s) (event : Event J ω) : Sound J (step s event) := by
  cases event with
  | append writer clock event payload outcome => exact append_sound sound writer clock event payload.2 outcome
  | flush writer clock outcome => exact flush_sound sound writer clock outcome
  | repair clock outcome => exact repair_sound sound clock outcome
  | note writer now detail =>
    refine ⟨sound.bounded, sound.numbered, ?_, sound.returned⟩
    intro other
    show Counts s.file (s.setWriter writer _ other).counted
    unfold State.setWriter
    split
    · rw [noteWriteFailure_counted]
      exact sound.counted writer
    · exact sound.counted other

theorem run_sound (sound : Sound J s) (events : List (Event J ω)) : Sound J (run s events) := by
  induction events generalizing s with
  | nil => exact sound
  | cons event events ih => exact ih (step_sound sound event)

/-- Whatever was cut, every line carries its own number, no two records share one, an append returned
the number of its record's line, and every writer's count is of the prefix it names. -/
theorem lines_numbered (events : List (Event J ω)) :
    (∀ (i : Nat) (line : Bytes), (fileLines (run (State.created ω) events).file)[i]? = some line →
      Written J (i + 1) line ∧
        ∀ value, J.fromSlice line = some value → value.get "seq" = .number (.ofNat (i + 1))) ∧
    (∀ (i j : Nat) (line other : Bytes) (v w : Value),
      (fileLines (run (State.created ω) events).file)[i]? = some line → J.fromSlice line = some v →
      (fileLines (run (State.created ω) events).file)[j]? = some other → J.fromSlice other = some w →
      v.get "seq" = w.get "seq" → i = j) ∧
    (∀ a ∈ (run (State.created ω) events).returned, 0 < a.1 ∧ a.2.get "seq" = .number (.ofNat a.1) ∧
      (splitLines (run (State.created ω) events).file).1[a.1 - 1]? = some (Json.write a.2)) ∧
    ∀ writer, Counts (run (State.created ω) events).file ((run (State.created ω) events).writers writer).counted := by
  have sound := run_sound (created_sound J ω) events
  refine ⟨?_, ?_, sound.returned, sound.counted⟩
  · intro i line found
    have written := sound.numbered i line found
    exact ⟨written, fun value => written.seq⟩
  · intro i j line other v w lineAt lineRead otherAt otherRead same
    rw [(sound.numbered i line lineAt).seq lineRead, (sound.numbered j other otherAt).seq otherRead] at same
    have numbers := Number.ofNat_inj (Value.number.inj same)
    omega

end

end

end Evidence
end CommonMeasure
