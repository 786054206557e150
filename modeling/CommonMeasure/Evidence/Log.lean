import CommonMeasure.Json.Text

/-!
# The evidence log: what an append writes

An append, under the log's lock, counts the file's lines from where its writer last saw it, marks an
unterminated final line with an `evidence_gap` record of its length, and writes its own record under
the next line number.
-/

namespace CommonMeasure.Evidence
open Json

def maxFile : Nat := 2 ^ 63

/-- A moment, as `to_rfc3339_opts` writes it. -/
abbrev Stamp := String

structure Clock where
  modified : Stamp
  marked : Stamp
  now : Stamp

/-- The newlines in the first `end_` bytes of a log. -/
structure Counted where
  end_ : Nat
  newlines : Nat

instance : Inhabited Counted := ⟨⟨0, 0⟩⟩

def TORN_LINE_BYTES : String := "torn_line_bytes"

/-- `GapReason::WriteFailed`, as it is serialised. -/
def writeFailed : Value := .string "write_failed"

/-! ### Reading the tail -/

def rposition (chunk : Bytes) : Option Nat :=
  (chunk.reverse.findIdx? (· == newline)).map fun back => chunk.length - 1 - back

/-- Walks back from `end_` by `chunk` bytes at a time to the last newline, and gives the length of what
follows it. -/
def walkBack (file : Bytes) (chunk : Nat) : Nat → Nat → Nat
  | 0, _ => file.length
  | steps + 1, end_ =>
    if end_ = 0 then file.length
    else
      let start := end_ - chunk
      match rposition ((file.drop start).take (end_ - start)) with
      | some at_ => file.length - (start + at_ + 1)
      | none => walkBack file chunk steps start

def tornTail (file : Bytes) : Option Nat :=
  if file.length = 0 then none
  else if file.getLast? = some newline then none
  else some (walkBack file 8192 file.length file.length)

/-- The newlines in bytes `from_..to_` of the file. -/
def countNewlines (file : Bytes) (from_ to_ : Nat) : Nat := ((file.drop from_).take (to_ - from_)).count newline

def countLines (file : Bytes) : Nat :=
  (splitLines file).1.length + if (splitLines file).2 = [] then 0 else 1

def record (sequence : Nat) (timestamp event : String) (payload : Value) : Value :=
  .object [("seq", .number (.ofNat sequence)), ("timestamp", .string timestamp), ("event", .string event),
    ("payload", payload)]

/-- The `evidence_gap` record that marks the line before it, `bytes` long, as torn. -/
def tornGapRecord (sequence bytes : Nat) (clock : Clock) : Value :=
  record sequence clock.marked "evidence_gap" (.object [
    ("reason", writeFailed),
    ("from", .string clock.modified),
    ("to", .string clock.marked),
    (TORN_LINE_BYTES, .number (.ofNat bytes)),
    ("detail", .string ("the line before this record ended without its newline after " ++ toString bytes ++
      " bytes and no process was still writing it, so a write was cut short; the line is " ++
      "terminated here, and readers skip it unless it parses"))])

/-- `record` as one line after `bytes`. -/
def pushLine (bytes : Bytes) (record : Value) : Bytes := bytes ++ write record ++ [newline]

structure Append where
  sequence : Nat
  record : Value
  bytes : Bytes
  counted : Counted

def appendLocked (counted : Counted) (file : Bytes) (clock : Clock) (event : String) (payload : Value) : Append :=
  let length := file.length
  let from_ := if length < counted.end_ then default else counted
  let newlines := from_.newlines + countNewlines file from_.end_ length
  let torn := tornTail file
  let lines := newlines + if torn.isSome then 1 else 0
  let marked := match torn with
    | some bytes => (lines + 1, pushLine [newline] (tornGapRecord (lines + 1) bytes clock))
    | none => (lines, [])
  let sequence := marked.1 + 1
  let record := record sequence clock.now event payload
  let bytes := pushLine marked.2 record
  ⟨sequence, record, bytes, length + bytes.length, newlines + bytes.count newline⟩

structure Tear where
  line : Nat
  bytes : Nat
  marked : Bool
  deriving DecidableEq

def repairTornTail (file : Bytes) (clock : Clock) : Option (Tear × Bytes) :=
  (tornTail file).map fun torn =>
    let lines := countLines file
    (⟨lines, torn, true⟩, pushLine [newline] (tornGapRecord (lines + 1) torn clock))

theorem record_holds {J : Reader} {n : Nat} (small : n < 2 ^ 64) (timestamp event : String) {payload : Value}
    (held : J.Holds payload) : J.Holds (record n timestamp event payload) := by
  apply J.holds_object
  · show ["seq", "timestamp", "event", "payload"].Nodup
    decide
  · simp only [List.forall_mem_cons]
    exact ⟨J.holds_number n small, J.holds_string _, J.holds_string _, held, by simp⟩

theorem tornGap_holds (J : Reader) {bytes : Nat} (small : bytes < 2 ^ 64) (clock : Clock) (n : Nat) :
    ∃ timestamp payload, J.Holds payload ∧ tornGapRecord n bytes clock = record n timestamp "evidence_gap" payload := by
  refine ⟨_, _, ?_, rfl⟩
  apply J.holds_object
  · show ["reason", "from", "to", TORN_LINE_BYTES, "detail"].Nodup
    decide
  · simp only [List.forall_mem_cons]
    exact ⟨J.holds_string _, J.holds_string _, J.holds_string _, J.holds_number _ small, J.holds_string _, by simp⟩

@[simp] theorem record_seq (n : Nat) (timestamp event : String) (payload : Value) :
    (record n timestamp event payload).get "seq" = .number (.ofNat n) := by
  simp [record, Value.get]

theorem record_event (n : Nat) (timestamp event : String) (payload : Value) :
    (record n timestamp event payload).get "event" = .string event := by
  simp [record, Value.get]

theorem rposition_none {chunk : Bytes} (free : LineFree chunk) : rposition chunk = none := by
  rw [rposition, Option.map_eq_none_iff, List.findIdx?_eq_none_iff]
  intro b member
  have different : b ≠ newline := by
    rintro rfl
    exact free (List.mem_reverse.mp member)
  simpa using different

theorem rposition_some {front tail : Bytes} (free : LineFree tail) :
    rposition (front ++ newline :: tail) = some front.length := by
  have found : (front ++ newline :: tail).reverse.findIdx? (· == newline) = some tail.length := by
    rw [List.reverse_append, List.reverse_cons, List.append_assoc, List.findIdx?_append,
      List.findIdx?_eq_none_iff.mpr]
    · simp [List.findIdx?_cons]
    · intro b member
      have different : b ≠ newline := by
        rintro rfl
        exact free (List.mem_reverse.mp member)
      simpa using different
  rw [rposition, found]
  simp

theorem walkBack_tail {file : Bytes} {chunk : Nat} (positive : 0 < chunk) {steps end_ : Nat} (enough : end_ ≤ steps)
    (within : end_ ≤ file.length) (free : LineFree (file.drop end_)) :
    walkBack file chunk steps end_ = (splitLines file).2.length := by
  induction steps generalizing end_ with
  | zero =>
    rw [Nat.le_zero.mp enough, List.drop_zero] at free
    rw [walkBack, splitLines_tail free]
  | succ steps ih =>
    rw [walkBack]
    split
    · rename_i zero
      rw [zero, List.drop_zero] at free
      rw [splitLines_tail free]
    · rename_i some_
      have back : end_ - chunk < end_ := by omega
      generalize end_ - chunk = start at back ⊢
      have later : file.drop end_ = (file.drop start).drop (end_ - start) := by
        rw [List.drop_drop]
        congr 1
        omega
      have parts : file.drop start = (file.drop start).take (end_ - start) ++ file.drop end_ := by
        rw [later, List.take_append_drop]
      have length : ((file.drop start).take (end_ - start)).length = end_ - start := by
        rw [List.length_take, List.length_drop]
        omega
      obtain ⟨read, readIs⟩ : ∃ read, (file.drop start).take (end_ - start) = read := ⟨_, rfl⟩
      simp only [readIs] at parts length ⊢
      by_cases plain : LineFree read
      · simp only [rposition_none plain]
        apply ih (by omega) (by omega)
        rw [parts, lineFree_append]
        exact ⟨plain, free⟩
      · obtain ⟨after, before, same, first⟩ := List.eq_append_cons_of_mem (List.mem_reverse.mpr (not_not.mp plain))
        have flip := congrArg List.reverse same
        simp only [List.reverse_reverse, List.reverse_append, List.reverse_cons, List.append_assoc,
          List.singleton_append] at flip
        have tailFree : LineFree after.reverse := by simpa [LineFree] using first
        have tail : (splitLines file).2 = after.reverse ++ file.drop end_ := by
          have whole : file = (file.take start ++ before.reverse) ++ newline :: (after.reverse ++ file.drop end_) := by
            conv_lhs => rw [← List.take_append_drop start file, parts, flip]
            simp
          rw [whole, splitLines_break, ← whole, splitLines_tail (lineFree_append.mpr ⟨tailFree, free⟩)]
        rw [flip] at length
        simp only [flip, rposition_some tailFree, tail]
        simp only [List.length_append, List.length_cons, List.length_reverse, List.length_drop] at length ⊢
        omega

theorem tornTail_eq (file : Bytes) :
    tornTail file = if (splitLines file).2 = [] then none else some (splitLines file).2.length := by
  have free := splitLines_free file
  have join := joinLines_append_splitLines file
  unfold tornTail
  split
  · rename_i empty
    rw [List.length_eq_zero_iff.mp empty]
    rfl
  · rename_i some_
    split
    · rename_i last
      obtain ⟨front, same⟩ := List.getLast?_eq_some_iff.mp last
      have terminated : (splitLines file).2 = [] := by rw [same, splitLines_break]; rfl
      rw [if_pos terminated]
    · rename_i last
      rw [if_neg, walkBack_tail (by decide) le_rfl le_rfl (by simp)]
      intro terminated
      rw [terminated, List.append_nil] at join
      rcases List.eq_nil_or_concat (splitLines file).1 with none | ⟨lines, line, same⟩
      · rw [none] at join
        exact some_ (by rw [← join]; rfl)
      · rw [same] at join
        apply last
        rw [← join]
        simp

def closed (tail : Bytes) : List Bytes := if tail = [] then [] else [tail]

def opening (tail : Bytes) : Bytes := if tail = [] then [] else [newline]

/-- The line that marks it, after `lines` others. -/
def mark (lines : Nat) (tail : Bytes) (clock : Clock) : List Bytes :=
  if tail = [] then [] else [write (tornGapRecord (lines + 2) tail.length clock)]

/-- `counted` is the number of newlines in the prefix of the file it names. -/
def Counts (file : Bytes) (counted : Counted) : Prop :=
  counted.end_ ≤ file.length ∧ counted.newlines = (file.take counted.end_).count newline

theorem counts_default (file : Bytes) : Counts file default := by
  refine ⟨Nat.zero_le _, ?_⟩
  rfl

theorem Counts.append {file : Bytes} {counted : Counted} (counts : Counts file counted) (bytes : Bytes) :
    Counts (file ++ bytes) counted := by
  obtain ⟨within, count⟩ := counts
  refine ⟨by rw [List.length_append]; omega, ?_⟩
  rw [List.take_append_of_le_length within, count]

theorem counts_whole (file bytes : Bytes) :
    Counts (file ++ bytes) ⟨file.length + bytes.length, file.count newline + bytes.count newline⟩ := by
  refine ⟨by rw [List.length_append], ?_⟩
  rw [List.take_of_length_le (by rw [List.length_append]), List.count_append]

theorem Counts.newlines {file : Bytes} {counted : Counted} (counts : Counts file counted) :
    counted.newlines + countNewlines file counted.end_ file.length = file.count newline := by
  obtain ⟨within, count⟩ := counts
  have rest : (file.drop counted.end_).take (file.length - counted.end_) = file.drop counted.end_ := by
    rw [List.take_of_length_le]
    rw [List.length_drop]
  rw [countNewlines, rest, count, ← List.count_append, List.take_append_drop]

section

variable {file tail : Bytes} {lines : List Bytes}

theorem countLines_eq (split : splitLines file = (lines, tail)) :
    countLines file = lines.length + (closed tail).length := by
  rw [countLines, split, closed]
  split <;> rfl

theorem mark_length (tail : Bytes) (lines : Nat) (clock : Clock) : (mark lines tail clock).length = (closed tail).length := by
  unfold mark closed
  split <;> rfl

theorem appendLocked_spec (split : splitLines file = (lines, tail)) {counted : Counted} (counts : Counts file counted)
    (clock : Clock) (event : String) (payload : Value) :
    (appendLocked counted file clock event payload).sequence =
        lines.length + (closed tail).length + (closed tail).length + 1 ∧
      (appendLocked counted file clock event payload).record =
        record (lines.length + (closed tail).length + (closed tail).length + 1) clock.now event payload ∧
      (appendLocked counted file clock event payload).bytes = opening tail ++ joinLines (mark lines.length tail clock ++
        [write (appendLocked counted file clock event payload).record]) ∧
      Counts (file ++ (appendLocked counted file clock event payload).bytes)
        (appendLocked counted file clock event payload).counted := by
  have newlines : counted.newlines + countNewlines file counted.end_ file.length = lines.length := by
    rw [counts.newlines, count_newline, split]
  have from_ : ¬file.length < counted.end_ := by
    have within := counts.1
    omega
  have torn := tornTail_eq file
  rw [split] at torn
  have counts (bytes : Bytes) : Counts (file ++ bytes) ⟨file.length + bytes.length, lines.length + bytes.count newline⟩ := by
    have all := counts_whole file bytes
    rwa [count_newline file, split] at all
  unfold appendLocked
  simp only [if_neg from_, newlines]
  by_cases empty : tail = []
  · rw [if_pos empty] at torn
    simp only [torn, empty, closed, mark, opening, if_true, pushLine]
    exact ⟨rfl, rfl, by simp, counts _⟩
  · rw [if_neg empty] at torn
    simp only [torn, empty, closed, mark, opening, if_false, pushLine]
    exact ⟨rfl, rfl, by simp, counts _⟩

theorem repairTornTail_spec (split : splitLines file = (lines, tail)) (clock : Clock) :
    repairTornTail file clock = if tail = [] then none else
      some (⟨lines.length + 1, tail.length, true⟩, opening tail ++ joinLines (mark lines.length tail clock)) := by
  unfold repairTornTail
  rw [tornTail_eq, split]
  split
  · rfl
  · rename_i torn
    simp only [Option.map_some, countLines_eq split, closed, opening, mark, if_neg torn, pushLine]
    simp

theorem splitLines_add (split : splitLines file = (lines, tail)) {added : List Bytes} {part : Bytes}
    (free : ∀ line ∈ added, LineFree line) (partFree : LineFree part) :
    splitLines (file ++ (opening tail ++ (joinLines added ++ part))) = (lines ++ closed tail ++ added, part) := by
  have fileIs := joinLines_append_splitLines file
  have fileFree := splitLines_free file
  rw [split] at fileIs fileFree
  have linesFree : ∀ line ∈ lines ++ closed tail ++ added, LineFree line := by
    intro line member
    simp only [List.mem_append] at member
    rcases member with (earlier | terminated) | later
    · exact fileFree.1 line earlier
    · unfold closed at terminated
      split at terminated
      · cases terminated
      · rw [List.mem_singleton.mp terminated]
        exact fileFree.2
    · exact free line later
  have bytes : file ++ (opening tail ++ (joinLines added ++ part)) = joinLines (lines ++ closed tail ++ added) ++ part := by
    rw [← fileIs]
    unfold opening closed
    split
    · rename_i empty
      simp [empty]
    · simp
  rw [bytes, splitLines_join linesFree partFree]

theorem splitLines_cut (split : splitLines file = (lines, tail)) {added : List Bytes} {cut : Bytes}
    (free : ∀ line ∈ added, LineFree line) (prefixed : cut <+: opening tail ++ joinLines added) :
    cut = [] ∨ ∃ whole more part, added = whole ++ more ∧ cut = opening tail ++ (joinLines whole ++ part) ∧
      splitLines (file ++ cut) = (lines ++ closed tail ++ whole, part) ∧
      (part = [] ∨ ∃ line rest, more = line :: rest ∧ part <+: line) := by
  have inside : cut = [] ∨ ∃ rest, cut = opening tail ++ rest ∧ rest <+: joinLines added := by
    unfold opening at prefixed ⊢
    split at prefixed
    · rename_i empty
      exact Or.inr ⟨cut, by rw [if_pos empty]; rfl, prefixed⟩
    · rename_i torn
      rw [if_neg torn]
      exact cut_cons prefixed
  rcases inside with empty | ⟨rest, rfl, inside⟩
  · exact Or.inl empty
  · obtain ⟨whole, more, part, rfl, rfl, ends⟩ := cut_joinLines inside
    have partFree : LineFree part := by
      rcases ends with rfl | ⟨line, rest, rfl, cut⟩
      · exact lineFree_nil
      · exact (free line (by simp)).cut cut
    exact Or.inr ⟨whole, more, part, rfl, rfl,
      splitLines_add split (fun line member => free line (List.mem_append_left _ member)) partFree, ends⟩

end

def fileLines (file : Bytes) : List Bytes := (splitLines file).1 ++ closed (splitLines file).2

theorem fileLines_eq (file : Bytes) :
    (fileLines file).length = (splitLines file).1.length + (closed (splitLines file).2).length := by
  rw [fileLines, List.length_append]

theorem closed_length (tail : Bytes) : (closed tail).length ≤ tail.length := by
  unfold closed
  split
  · simp
  · rename_i torn
    exact List.length_pos_iff.mpr torn

theorem closed_one (tail : Bytes) : (closed tail).length ≤ 1 := by
  unfold closed
  split <;> simp

theorem fileLines_length (file : Bytes) : (fileLines file).length ≤ file.length := by
  have parts := splitLines_length file
  have tail := closed_length (splitLines file).2
  rw [fileLines_eq]
  omega

theorem fileLines_cut {file cut : Bytes} {added : List Bytes} (free : ∀ line ∈ added, LineFree line)
    (prefixed : cut <+: opening (splitLines file).2 ++ joinLines added) :
    (splitLines file).1 <+: (splitLines (file ++ cut)).1 ∧
      ∃ pieces : List Bytes, fileLines (file ++ cut) = fileLines file ++ pieces ∧
        ∀ (i : Nat) (piece : Bytes), pieces[i]? = some piece → ∃ line, added[i]? = some line ∧ piece <+: line := by
  rcases splitLines_cut rfl free prefixed with rfl | ⟨whole, more, part, rfl, rfl, split, ends⟩
  · rw [List.append_nil]
    exact ⟨List.prefix_refl _, [], by simp, by simp⟩
  · refine ⟨by rw [split, List.append_assoc]; exact List.prefix_append _ _, whole ++ closed part,
      by simp [fileLines, split], ?_⟩
    intro i piece found
    rw [List.getElem?_append] at found ⊢
    split at found
    · rename_i inWhole
      exact ⟨piece, by rw [if_pos inWhole]; exact found, List.prefix_refl _⟩
    · rename_i past
      rw [if_neg past]
      rcases ends with rfl | ⟨line, rest, rfl, cut⟩
      · simp [closed] at found
      · unfold closed at found
        split at found
        · simp at found
        · obtain ⟨zero, same⟩ := List.getElem?_eq_some_iff.mp found
          have first : i - whole.length = 0 := by simpa using zero
          simp only [first] at found ⊢
          have pieceIs : part = piece := by simpa using found
          exact ⟨line, rfl, pieceIs ▸ cut⟩

end CommonMeasure.Evidence
