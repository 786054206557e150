import CommonMeasure.Observation.Index

namespace CommonMeasure.Observation

open Json Evidence

section

variable (J : Reader)

/-- The records of the lines, the first of them at byte `at_`. -/
def placed (at_ : Nat) : List Bytes → List (Value × Nat)
  | [] => []
  | line :: rest => ((J.fromSlice line).map fun record => (record, at_)).toList ++ placed (at_ + (line.length + 1)) rest

def Known (canonicalUuid : String → Bool) (lines : List Bytes) (atom : Atom) : Prop :=
  Establishes canonicalUuid (placed J 0 lines) atom

end

def Begins (log : Bytes) (lines : List Bytes) : Prop := lines <+: (splitLines log).1

variable {J : Reader} {log : Bytes} {lines more : List Bytes}

theorem placed_append (at_ : Nat) (lines more : List Bytes) :
    placed J at_ (lines ++ more) = placed J at_ lines ++ placed J (at_ + (joinLines lines).length) more := by
  induction lines generalizing at_ with
  | nil => simp [placed]
  | cons line rest ih =>
    rw [List.cons_append, placed, ih, placed, List.append_assoc, joinLines_cons]
    congr 3
    simp
    omega

theorem placed_before {at_ bound : Nat} (fits : at_ + (joinLines lines).length ≤ bound) :
    ∀ record ∈ placed J at_ lines, record.2 < bound := by
  induction lines generalizing at_ with
  | nil => simp [placed]
  | cons line rest ih =>
    simp only [joinLines_cons, List.length_append, List.length_cons] at fits
    intro record listed
    rw [placed] at listed
    rcases List.mem_append.mp listed with here | later
    · obtain ⟨value, _, rfl⟩ := Option.map_eq_some_iff.mp (Option.mem_toList.mp here)
      dsimp only
      omega
    · exact ih (by omega) record later

theorem mem_placed {record : Value} {at_ start : Nat} (listed : (record, at_) ∈ placed J start lines) :
    ∃ before line rest, lines = before ++ line :: rest ∧ at_ = start + (joinLines before).length ∧
      J.fromSlice line = some record := by
  induction lines generalizing start with
  | nil => cases listed
  | cons line rest ih =>
    rw [placed] at listed
    rcases List.mem_append.mp listed with here | later
    · obtain ⟨value, reads, same⟩ := Option.map_eq_some_iff.mp (Option.mem_toList.mp here)
      obtain ⟨rfl, rfl⟩ := Prod.mk.inj same
      exact ⟨[], line, rest, rfl, rfl, reads⟩
    · obtain ⟨before, other, after, rfl, position, reads⟩ := ih later
      refine ⟨line :: before, other, after, rfl, ?_, reads⟩
      simp only [joinLines_cons, List.length_append, List.length_cons]
      omega

theorem Begins.mono {grown : Bytes} (begins : Begins log lines) (growth : log <+: grown) : Begins grown lines :=
  List.IsPrefix.trans begins (splitLines_cut growth)

theorem Begins.length (begins : Begins log lines) : (joinLines lines).length ≤ log.length := by
  obtain ⟨rest, split⟩ := begins
  have joined := congrArg List.length (joinLines_append_splitLines log)
  rw [← split, joinLines_append] at joined
  simp only [List.length_append] at joined
  omega

theorem Begins.prefix_of_length (first : Begins log lines) (second : Begins log more)
    (shorter : (joinLines lines).length ≤ (joinLines more).length) : lines <+: more := by
  rcases List.prefix_or_prefix_of_prefix first second with before | ⟨rest, rfl⟩
  · exact before
  · cases rest with
    | nil => simp
    | cons line rest =>
      simp only [joinLines_append, joinLines_cons, List.length_append, List.length_cons] at shorter
      omega

theorem Begins.drop (begins : Begins log lines) :
    ∃ rest, (splitLines log).1 = lines ++ rest ∧
      splitLines (log.drop (joinLines lines).length) = (rest, (splitLines log).2) := by
  obtain ⟨rest, split⟩ := begins
  have free := splitLines_free log
  have left : log.drop (joinLines lines).length = joinLines rest ++ (splitLines log).2 := by
    conv_lhs => rw [← joinLines_append_splitLines log, ← split, joinLines_append, List.append_assoc]
    exact List.drop_left
  refine ⟨rest, split.symm, ?_⟩
  rw [left]
  exact splitLines_join (fun line listed => free.1 line (split ▸ List.mem_append_right _ listed)) free.2

section

variable {canonicalUuid : String → Bool} {atom : Atom}

theorem known_append : Known J canonicalUuid (lines ++ more) atom ↔ Known J canonicalUuid lines atom ∨
    Establishes canonicalUuid (placed J (joinLines lines).length more) atom := by
  unfold Known
  rw [placed_append, establishes_append, Nat.zero_add]

theorem Known.mono (known : Known J canonicalUuid lines atom) (first : lines <+: more) :
    Known J canonicalUuid more atom := by
  obtain ⟨rest, rfl⟩ := first
  exact known_append.mpr (Or.inl known)

end

/-- A scan has passed on the records of the lines it has settled, which are all of them but one it holds, unless it
has failed. -/
def Passed (J : Reader) (start : Nat) (lines : List Bytes) (s : Scan) : Prop :=
  ∃ done rest, lines = done ++ rest ∧ s.end_.offset = start + (joinLines done).length ∧
    s.records = placed J start done ∧
    (s.fault = none → s.held = none ∧ rest = [] ∨ s.held.isSome ∧ ∃ line, rest = [line] ∧ J.fromSlice line = none)

theorem placed_unread {at_ : Nat} {line : Bytes} (unread : J.fromSlice line = none) : placed J at_ [line] = [] := by
  simp [placed, unread]

theorem placed_read {at_ : Nat} {line : Bytes} {record : Value} (read : J.fromSlice line = some record) :
    placed J at_ [line] = [(record, at_)] := by simp [placed, read]

theorem passed_line {start : Nat} {numbered : Bool} {s : Scan} (passed : Passed J start lines s)
    (sound : s.fault = none) (cursor : s.cursor.offset = start + (joinLines lines).length) (line : Bytes) :
    Passed J start (lines ++ [line]) (scanLine J numbered s line) := by
  obtain ⟨done, rest, rfl, end_, records, standing⟩ := passed
  have length : start + (joinLines (done ++ rest ++ [line])).length = s.cursor.offset + (line.length + 1) := by
    rw [cursor, joinLines_append, List.length_append]
    simp [Nat.add_assoc]
  have failed {after : Scan} (same : after.end_ = s.end_) (kept : after.records = s.records) (fails : after.fault ≠ none) :
      Passed J start (done ++ rest ++ [line]) after :=
    ⟨done, rest ++ [line], by simp, same ▸ end_, kept ▸ records, fun ok => absurd ok fails⟩
  unfold scanLine
  rcases standing sound with ⟨held, rfl⟩ | ⟨held, torn, rfl, unread⟩
  · rw [List.append_nil] at length failed ⊢
    cases white : Evidence.blank line with
    | true =>
      simp only [held, if_true]
      refine ⟨done ++ [line], [], by simp, length.symm, ?_, fun _ => Or.inl ⟨rfl, rfl⟩⟩
      rw [placed_append, placed_unread (blank_unread white), List.append_nil]
      exact records
    | false =>
      cases read : J.fromSlice line with
      | some record =>
        simp only [held, Bool.false_eq_true, if_false]
        refine ⟨done ++ [line], [], by simp, length.symm, ?_, fun _ => Or.inl ⟨rfl, rfl⟩⟩
        rw [placed_append, placed_read read, ← records, cursor, List.append_nil]
      | none =>
        simp only [held, Bool.false_eq_true, if_false]
        exact ⟨done, [line], rfl, end_, records, fun _ => Or.inr ⟨rfl, line, rfl, read⟩⟩
  · obtain ⟨held, is⟩ := Option.isSome_iff_exists.mp held
    cases white : Evidence.blank line with
    | true =>
      simp only [is, if_true]
      exact failed rfl rfl (by simp)
    | false =>
      cases read : J.fromSlice line with
      | some record =>
        simp only [is, Bool.false_eq_true, if_false]
        split
        · refine ⟨done ++ [torn] ++ [line], [], by simp, length.symm, ?_, fun _ => Or.inl ⟨rfl, rfl⟩⟩
          rw [placed_append, placed_append, placed_unread unread, placed_read read, ← records, cursor, List.append_nil]
        · exact failed rfl rfl (by simp)
      | none =>
        simp only [is, Bool.false_eq_true, if_false]
        exact failed rfl rfl (by simp)

theorem passed_lines (numbered : Bool) (from_ : LogPosition) (lines : List Bytes) :
    Passed J from_.offset lines (scanLines J numbered (.start from_) lines) := by
  induction lines using List.reverseRecOn with
  | nil => exact ⟨[], [], rfl, by simp [scanLines, Scan.start], rfl, fun _ => Or.inl ⟨rfl, rfl⟩⟩
  | append_singleton lines line ih =>
    rw [scanLines_append]
    cases before : (scanLines J numbered (.start from_) lines).fault with
    | some fault =>
      rw [scanLines_failed numbered before]
      obtain ⟨done, rest, rfl, end_, records, _⟩ := ih
      refine ⟨done, rest ++ [line], by simp, end_, records, fun ok => ?_⟩
      rw [before] at ok
      cases ok
    | none =>
      rw [scanLines_one numbered before]
      have cursor := congrArg LogPosition.offset (scanLines_cursor _ _ before)
      exact passed_line ih before cursor line

variable {canonicalUuid : String → Bool} {index : Index canonicalUuid}

theorem scanned_placed (begins : Begins log lines) (offset : index.offset = (joinLines lines).length) :
    ∃ range, Begins log (lines ++ range) ∧ (index.scanned J log).end_.offset = (joinLines (lines ++ range)).length ∧
      (index.scanned J log).records = placed J (joinLines lines).length range ∧
      ((index.scanned J log).fault = none → Terminated log ∧ lines ++ range = (splitLines log).1) := by
  obtain ⟨rest, split, left⟩ := begins.drop
  rw [← offset] at left
  obtain ⟨done, kept, rfl, end_, records, standing⟩ :=
    passed_lines (J := J) (index.offset == 0 || decide (0 < 0)) ⟨index.offset, 0⟩ rest
  dsimp only at end_ records
  have ends : Begins log (lines ++ done) := ⟨kept, by rw [split, List.append_assoc]⟩
  have reached : (joinLines (lines ++ done)).length = index.offset + (joinLines done).length := by
    rw [joinLines_append, List.length_append, offset]
  refine ⟨done, ends, ?_, ?_, ?_⟩
  all_goals
    unfold Index.scanned scan
    rw [left]
    dsimp only
  · rw [reached, ← end_]
    split
    · rfl
    · split
      · unfold scanEnd
        split <;> rfl
      · rfl
  · rw [← offset, ← records]
    split
    · rfl
    · split
      · unfold scanEnd
        split <;> rfl
      · rfl
  · split
    · rename_i failed
      intro ok
      rw [Option.isSome_iff_ne_none] at failed
      exact absurd ok failed
    · split
      · rename_i terminated
        intro ok
        obtain ⟨sound, nothing⟩ := scanEnd_ok ok
        rcases standing sound with ⟨_, rfl⟩ | ⟨held, _⟩
        · rw [split, List.append_nil]
          exact ⟨terminated, rfl⟩
        · rw [nothing] at held
          cases held
      · intro ok
        cases ok

theorem readable_scanned {records : List Value} (readable : Evidence.read J log = .ok records) (begins : Begins log lines)
    (offset : index.offset = (joinLines lines).length) : (index.scanned J log).fault = none := by
  obtain ⟨terminated, settled⟩ := read_ok_iff.mp readable
  obtain ⟨rest, split, left⟩ := begins.drop
  obtain ⟨more, settled⟩ := settled.drop split
  obtain ⟨sound, held, _⟩ := settled_scanLines (index.offset == 0 || decide (0 < 0)) settled
    (s := .start ⟨index.offset, 0⟩) rfl rfl
  have whole : Terminated (log.drop index.offset) := by
    rw [Terminated, offset, left]
    exact terminated
  have same := scan_terminated (J := J) ⟨index.offset, 0⟩ whole .refuse ⟨"", "", ""⟩
  dsimp only at same
  unfold Index.scanned
  rw [same, offset, left, ← offset, scanEnd_settled held]
  exact sound

end CommonMeasure.Observation
