import CommonMeasure.Evidence.Records
import CommonMeasure.Json.Compact

/-!
# The forecast of a repair

A forecasting scan reads a log as it will read once its torn tail is marked.
-/

namespace CommonMeasure.Evidence
open Json

structure Boundary (file : Bytes) (from_ : LogPosition) : Prop where
  within : from_.offset ≤ file.length
  terminated : Terminated (file.take from_.offset)

def markRecords (file : Bytes) (clock : Clock) : List (Value × Nat) :=
  (gapOf file clock).map fun gap => (gap, file.length + 1)

/-- The forecast and the repair read the log alike: both fail or neither, and where neither fails they pass
on the same records but for the mark, and the forecast's unmarked tear is the one the repair marks. -/
def Agree (J : Reader) (file : Bytes) (from_ : LogPosition) (clock : Clock) : Prop :=
  let forecast := scan J file from_ .forecast clock
  let repair := scan J file from_ .repair clock
  (forecast.fault.isSome ↔ repair.fault.isSome) ∧
  (forecast.fault = none → repair.fault = none →
    repair.records = forecast.records ++ markRecords file clock ∧
    (forecast.tears.filter (!·.marked)).map Tear.bytes = ((repairTornTail file clock).map (·.1.bytes)).toList ∧
    (from_.line = countLines (file.take from_.offset) →
      (forecast.tears.filter (!·.marked)).map Tear.line = ((repairTornTail file clock).map (·.1.line)).toList))

def Overlooked (J : Reader) (file : Bytes) (from_ : LogPosition) : Prop :=
  ∃ held records, Holding J (splitLines (file.drop from_.offset)).1 held records ∧
    (splitLines (file.drop from_.offset)).2 ≠ [] ∧
    tornLineGap J (splitLines (file.drop from_.offset)).2 = some held.length

section

variable {J : Reader} {file : Bytes} {from_ : LogPosition} {numbered : Bool}

theorem Boundary.split (boundary : Boundary file from_) :
    splitLines file = ((splitLines (file.take from_.offset)).1 ++ (splitLines (file.drop from_.offset)).1,
      (splitLines (file.drop from_.offset)).2) := by
  have join := boundary.terminated.eq_joinLines
  have whole : file = joinLines (splitLines (file.take from_.offset)).1 ++ file.drop from_.offset := by
    rw [join, List.take_append_drop]
  conv_lhs => rw [whole]
  exact splitLines_append (splitLines_free _).1 _

theorem scanLine_tears {s : Scan} (marked : ∀ tear ∈ s.tears, tear.marked = true) (line : Bytes) :
    ∀ tear ∈ (scanLine J numbered s line).tears, tear.marked = true := by
  unfold scanLine
  dsimp only
  repeat' split
  all_goals try exact marked
  intro tear member
  rcases List.mem_append.mp member with earlier | now
  · exact marked tear earlier
  · rw [List.mem_singleton.mp now]

theorem scanLines_tears {s : Scan} (marked : ∀ tear ∈ s.tears, tear.marked = true) (lines : List Bytes) :
    ∀ tear ∈ (scanLines J numbered s lines).tears, tear.marked = true := by
  induction lines generalizing s with
  | nil => exact marked
  | cons line lines ih =>
    rw [scanLines]
    split
    · exact marked
    · exact ih (scanLine_tears marked line)

abbrev markOf (file : Bytes) (clock : Clock) : Value :=
  tornGapRecord ((splitLines file).1.length + 2) (splitLines file).2.length clock

variable {lines : List Bytes} {rest : Bytes}

theorem Boundary.tail (boundary : Boundary file from_) (split : splitLines (file.drop from_.offset) = (lines, rest)) :
    (splitLines file).2 = rest := by
  rw [boundary.split, split]

theorem Boundary.length (boundary : Boundary file from_) (split : splitLines (file.drop from_.offset) = (lines, rest)) :
    from_.offset + (joinLines lines).length + rest.length = file.length := by
  have join := congrArg List.length (joinLines_append_splitLines (file.drop from_.offset))
  have within := boundary.within
  rw [split, List.length_append, List.length_drop] at join
  dsimp only at join
  omega

theorem repair_torn (boundary : Boundary file from_) (split : splitLines (file.drop from_.offset) = (lines, rest))
    (torn : rest ≠ []) (clock : Clock) :
    repairTornTail file clock = some (⟨(splitLines file).1.length + 1, rest.length, true⟩,
      newline :: (write (markOf file clock) ++ [newline])) := by
  have tail := boundary.tail split
  rw [repairTornTail_spec rfl, tail, if_neg torn]
  simp [opening, mark, torn, markOf, tail]

theorem marked_lines (boundary : Boundary file from_) (split : splitLines (file.drop from_.offset) = (lines, rest))
    (torn : rest ≠ []) (clock : Clock) :
    (splitLines ((file ++ ((repairTornTail file clock).map Prod.snd).getD []).drop
        (from_.offset + (joinLines lines).length))).1 = [rest, write (markOf file clock)] := by
  have join := joinLines_append_splitLines (file.drop from_.offset)
  have free := (splitLines_free (file.drop from_.offset)).2
  rw [split] at join free
  have rests : rest ++ newline :: (write (markOf file clock) ++ [newline]) =
      joinLines [rest, write (markOf file clock)] ++ [] := by simp
  rw [repair_torn boundary split torn, Option.map_some, Option.getD_some, ← List.drop_drop,
    List.drop_append_of_le_length boundary.within, ← join, List.append_assoc, List.drop_left, rests, splitLines_join]
  · intro line member
    simp only [List.mem_cons, List.not_mem_nil, or_false] at member
    rcases member with rfl | rfl
    · exact free
    · exact write_lineFree _
  · exact lineFree_nil

theorem tornLineGap_text {line : Bytes} {bytes : Nat} (gap : tornLineGap J line = some bytes) :
    blank line = false ∧ ∃ value, J.fromSlice line = some value := by
  unfold tornLineGap at gap
  split at gap
  · obtain ⟨value, parsed, _⟩ := Option.bind_eq_some_iff.mp gap
    refine ⟨?_, value, parsed⟩
    cases empty : blank line with
    | false => rfl
    | true =>
      rw [blank_unread empty] at parsed
      cases parsed
  · cases gap

theorem scan_mark (bounded : file.length < maxFile) {s : Scan} (held : s.held = none) (clock : Clock) :
    scanLine J numbered s (write (markOf file clock)) = { s with
      end_ := ⟨s.cursor.offset + ((write (markOf file clock)).length + 1), s.cursor.line + 1⟩
      cursor := ⟨s.cursor.offset + ((write (markOf file clock)).length + 1), s.cursor.line + 1⟩
      records := s.records ++ [(markOf file clock, s.cursor.offset)] } := by
  have parts := splitLines_length file
  unfold maxFile at bounded
  have entry : Entry J (markOf file clock) := tornGap_entry (by omega) (by omega) clock
  have text := entry.not_blank (write_ne_nil _) (List.prefix_refl _)
  simp [scanLine, text, entry.read, held]

theorem scan_mark_held (bounded : file.length < maxFile) {s : Scan} {torn : Held}
    (held : s.held = some torn) (bytes : torn.bytes = (splitLines file).2.length) (clock : Clock) :
    scanLine J numbered s (write (markOf file clock)) = { s with
      end_ := ⟨s.cursor.offset + ((write (markOf file clock)).length + 1), s.cursor.line + 1⟩
      cursor := ⟨s.cursor.offset + ((write (markOf file clock)).length + 1), s.cursor.line + 1⟩
      held := none
      tears := s.tears ++ [⟨torn.line, torn.bytes, true⟩]
      records := s.records ++ [(markOf file clock, s.cursor.offset)] } := by
  have parts := splitLines_length file
  unfold maxFile at bounded
  have entry : Entry J (markOf file clock) := tornGap_entry (by omega) (by omega) clock
  have text := entry.not_blank (write_ne_nil _) (List.prefix_refl _)
  have gap : tornLineGap J (write (markOf file clock)) = some torn.bytes := by
    rw [bytes]
    exact tornLineGap_mark (by omega) (by omega) clock
  simp [scanLine, text, entry.read, held, gap]

theorem holding_scan {line : Bytes} {records : List Value} (holding : Holding J lines line records) {s : Scan}
    (ok : s.fault = none) (held : s.held = none) :
    (scanLines J numbered s lines).fault = none ∧ ∃ torn, (scanLines J numbered s lines).held = some torn ∧
      torn.bytes = line.length := by
  obtain ⟨settled, rfl, before, text, unread⟩ := holding
  obtain ⟨okBefore, heldBefore, _⟩ := settled_scanLines numbered before ok held
  rw [scanLines_append, scanLines_one numbered okBefore]
  simp [scanLine, text, unread, heldBefore, okBefore]

def reached (J : Reader) (file : Bytes) (from_ : LogPosition) : Scan :=
  scanLines J (from_.offset == 0 || 0 < from_.line) (.start from_) (splitLines (file.drop from_.offset)).1

theorem scan_failed {fault : Fault} (failed : (reached J file from_).fault = some fault) (tail : TornTail) (clock : Clock) :
    scan J file from_ tail clock = (reached J file from_).scanned file := by
  unfold scan
  dsimp only
  rw [if_pos]
  · rfl
  · unfold reached at failed
    rw [failed]
    rfl

theorem scan_reached (ok : (reached J file from_).fault = none) (torn : ¬Terminated (file.drop from_.offset))
    (tail : TornTail) (clock : Clock) :
    scan J file from_ tail clock = scanTornTail J (from_.offset == 0 || 0 < from_.line) file (reached J file from_)
      (splitLines (file.drop from_.offset)).2 tail clock := by
  unfold Terminated at torn
  unfold scan
  dsimp only
  rw [if_neg, if_neg torn]
  · rfl
  · unfold reached at ok
    simp [ok]

theorem repair_reached (boundary : Boundary file from_) (split : splitLines (file.drop from_.offset) = (lines, rest))
    (torn : rest ≠ []) (ok : (reached J file from_).fault = none) (clock : Clock) :
    scanTornTail J numbered file (reached J file from_) rest .repair clock =
      (scanEnd (scanLines J numbered (reached J file from_) [rest, write (markOf file clock)])).scanned
        (file ++ newline :: (write (markOf file clock) ++ [newline])) := by
  have cursor := scanLines_cursor _ _ ok
  have offset : (reached J file from_).cursor.offset = from_.offset + (joinLines lines).length := by
    rw [reached, cursor, split]
    rfl
  have read := marked_lines boundary split torn clock
  rw [← offset] at read
  unfold scanTornTail
  dsimp only
  rw [read, repair_torn boundary split torn]
  rfl

theorem scan_tail (numbered : Bool) {s : Scan} (ok : s.fault = none) (held : s.held = none) (rest : Bytes) :
    (scanLine J numbered s rest).fault = none ∧
      (scanLine J numbered s rest).records =
        s.records ++ ((J.fromSlice rest).map fun record => (record, s.cursor.offset)).toList ∧
      ((scanLine J numbered s rest).held = none ∨
        ∃ torn, (scanLine J numbered s rest).held = some torn ∧ torn.bytes = rest.length) := by
  unfold scanLine
  cases empty : blank rest with
  | true => simp [held, ok, blank_unread empty]
  | false => cases parsed : J.fromSlice rest <;> simp [held, ok]

theorem scan_marked (numbered : Bool) (bounded : file.length < maxFile) {s : Scan} (ok : s.fault = none) (held : s.held = none)
    (tail : (splitLines file).2 = rest) (clock : Clock) :
    (scanEnd (scanLines J numbered s [rest, write (markOf file clock)])).fault = none ∧
      (scanEnd (scanLines J numbered s [rest, write (markOf file clock)])).records =
        s.records ++ ((J.fromSlice rest).map fun record => (record, s.cursor.offset)).toList ++
          [(markOf file clock, s.cursor.offset + (rest.length + 1))] := by
  obtain ⟨okTail, records, heldTail⟩ := scan_tail (J := J) numbered ok held rest
  have cursor : (scanLine J numbered s rest).cursor = _ := scanLine_cursor s rest
  have lines : scanLines J numbered s [rest, write (markOf file clock)] =
      scanLine J numbered (scanLine J numbered s rest) (write (markOf file clock)) := by
    simp [scanLines, ok, okTail]
  rw [lines]
  rcases heldTail with nothing | ⟨torn, heldTail, bytes⟩
  · have next : scanLine J numbered (scanLine J numbered s rest) _ = _ := scan_mark bounded nothing clock
    have after : (scanLine J numbered (scanLine J numbered s rest) (write (markOf file clock))).held = none := by
      rw [next]
      exact nothing
    rw [scanEnd_settled after, next, records, cursor]
    exact ⟨okTail, rfl⟩
  · have next : scanLine J numbered (scanLine J numbered s rest) _ = _ :=
      scan_mark_held bounded heldTail (bytes.trans (congrArg List.length tail.symm)) clock
    have after : (scanLine J numbered (scanLine J numbered s rest) (write (markOf file clock))).held = none := by
      rw [next]
    rw [scanEnd_settled after, next, records, cursor]
    exact ⟨okTail, rfl⟩

theorem reached_tears (J : Reader) (file : Bytes) (from_ : LogPosition) :
    (reached J file from_).tears.filter (!·.marked) = [] := by
  rw [List.filter_eq_nil_iff]
  intro tear member
  have marked := scanLines_tears (s := .start from_) (by simp [Scan.start]) _ tear member
  simp [marked]

theorem agree_standing (boundary : Boundary file from_) (bounded : file.length < maxFile)
    (split : splitLines (file.drop from_.offset) = (lines, rest)) (torn : rest ≠ [])
    (ok : (reached J file from_).fault = none) (held : (reached J file from_).held = none) (clock : Clock) :
    Agree J file from_ clock := by
  have unterminated : ¬Terminated (file.drop from_.offset) := by
    rw [Terminated, split]
    exact torn
  have tail := boundary.tail split
  have length := boundary.length split
  have cursor := scanLines_cursor _ _ ok
  have tears := reached_tears J file from_
  obtain ⟨okMarked, records⟩ := scan_marked (J := J) (from_.offset == 0 || 0 < from_.line) bounded ok held tail clock
  have place : (reached J file from_).cursor = ⟨from_.offset + (joinLines lines).length, from_.line + lines.length⟩ := by
    rw [reached, cursor, split]
    rfl
  unfold Agree
  dsimp only
  rw [scan_reached ok unterminated, scan_reached ok unterminated, split, repair_reached boundary split torn ok]
  simp only [scanTornTail, held, Scan.scanned]
  refine ⟨by simp [ok, okMarked], ?_⟩
  intro _ _
  refine ⟨?_, ?_, ?_⟩
  · have offset : (reached J file from_).cursor.offset + (rest.length + 1) = file.length + 1 := by
      rw [place]
      dsimp only
      omega
    have gap : gapOf file clock = [markOf file clock] := by
      rw [gapOf, tail, if_neg torn, markOf, tail]
    rw [records, offset, markRecords, gap]
    rfl
  · rw [List.filter_append, tears, repair_torn boundary split torn]
    rfl
  · intro line
    have before : countLines (file.take from_.offset) = (splitLines (file.take from_.offset)).1.length := by
      rw [countLines, boundary.terminated, if_pos rfl, Nat.add_zero]
    have numbers : from_.line + lines.length = (splitLines file).1.length := by
      rw [line, before, boundary.split, split, List.length_append]
    rw [List.filter_append, tears, repair_torn boundary split torn, place]
    simp [numbers]

theorem repair_holding (numbered : Bool) (bounded : file.length < maxFile) {s : Scan} (ok : s.fault = none) {torn : Held}
    (held : s.held = some torn) (clock : Clock) :
    (scanEnd (scanLines J numbered s [rest, write (markOf file clock)])).fault = none ↔
      tornLineGap J rest = some torn.bytes := by
  constructor
  · intro through
    by_contra other
    have fails : (scanLine J numbered s rest).fault.isSome = true := by
      unfold scanLine
      cases empty : blank rest with
      | true => simp [held]
      | false => cases parsed : J.fromSlice rest <;> simp [held, other]
    obtain ⟨fault, failed⟩ := Option.isSome_iff_exists.mp fails
    have stays : scanLines J numbered s [rest, write (markOf file clock)] = scanLine J numbered s rest := by
      simp [scanLines, ok, failed]
    rw [stays, scanEnd_failed failed, failed] at through
    cases through
  · intro gap
    obtain ⟨text, value, parsed⟩ := tornLineGap_text gap
    have okTail : (scanLine J numbered s rest).fault = none ∧ (scanLine J numbered s rest).held = none := by
      simp [scanLine, text, parsed, held, gap, ok]
    have next : scanLine J numbered (scanLine J numbered s rest) _ = _ := scan_mark bounded okTail.2 clock
    have after : (scanLine J numbered (scanLine J numbered s rest) (write (markOf file clock))).held = none := by
      rw [next]
      exact okTail.2
    have lines : scanLines J numbered s [rest, write (markOf file clock)] =
        scanLine J numbered (scanLine J numbered s rest) (write (markOf file clock)) := by
      simp [scanLines, ok, okTail]
    rw [lines, scanEnd_settled after, next]
    exact okTail.1

/-- The forecast and the repair agree on a log unless its tail is the mark of the line before it. -/
theorem forecast_agrees_iff (boundary : Boundary file from_) (bounded : file.length < maxFile) (clock : Clock) :
    Agree J file from_ clock ↔ ¬Overlooked J file from_ := by
  obtain ⟨lines, rest, split⟩ : ∃ lines rest, splitLines (file.drop from_.offset) = (lines, rest) := ⟨_, _, rfl⟩
  have tail := boundary.tail split
  have holds {line : Bytes} {records : List Value} (holding : Holding J (splitLines (file.drop from_.offset)).1 line records) :
      (reached J file from_).fault = none ∧ ∃ torn, (reached J file from_).held = some torn ∧ torn.bytes = line.length :=
    holding_scan holding rfl rfl
  cases failed : (reached J file from_).fault with
  | some fault =>
    constructor
    · rintro _ ⟨held, records, holding, _⟩
      rw [(holds holding).1] at failed
      cases failed
    · intro _
      unfold Agree
      dsimp only
      rw [scan_failed failed, scan_failed failed]
      refine ⟨Iff.rfl, ?_⟩
      intro through
      rw [Scan.scanned, failed] at through
      cases through
  | none =>
    by_cases torn : rest = []
    · have terminated : Terminated (file.drop from_.offset) := by
        rw [Terminated, split]
        exact torn
      constructor
      · rintro _ ⟨held, records, _, some_, _⟩
        exact (some_ terminated).elim
      · intro _
        have tears := reached_tears J file from_
        have ends : (scanEnd (reached J file from_)).tears = (reached J file from_).tears := by
          unfold scanEnd
          split <;> rfl
        have nothing : repairTornTail file clock = none := by
          rw [repairTornTail_spec rfl, tail, if_pos torn]
        unfold Agree
        dsimp only
        rw [scan_terminated from_ terminated, scan_terminated from_ terminated, nothing]
        refine ⟨Iff.rfl, ?_⟩
        intro _ _
        have unmarked : ((scanEnd (reached J file from_)).scanned file).tears.filter (!·.marked) = [] := by
          rw [Scan.scanned, ends, tears]
        refine ⟨by simp [markRecords, gapOf, tail, torn], ?_, ?_⟩
        · exact congrArg (List.map Tear.bytes) unmarked
        · intro _
          exact congrArg (List.map Tear.line) unmarked
    · cases held : (reached J file from_).held with
      | none =>
        constructor
        · rintro _ ⟨line, records, holding, _⟩
          obtain ⟨_, other, heldIs, _⟩ := holds holding
          rw [held] at heldIs
          cases heldIs
        · intro _
          exact agree_standing boundary bounded split torn failed held clock
      | some line =>
        have unterminated : ¬Terminated (file.drop from_.offset) := by
          rw [Terminated, split]
          exact torn
        have standing := scanLines_standing _ _ rfl rfl failed
        have heldIs := held
        unfold reached at heldIs
        rw [Standing, heldIs] at standing
        obtain ⟨holding, bytes⟩ := standing
        have overlooked : Overlooked J file from_ ↔ tornLineGap J rest = some line.bytes := by
          constructor
          · rintro ⟨other, records, otherHolding, _, gap⟩
            obtain ⟨_, same, sameIs, length⟩ := holds otherHolding
            rw [held] at sameIs
            rw [split] at gap
            rw [gap, Option.some.inj sameIs, length]
          · intro gap
            refine ⟨line.content, _, holding, ?_, ?_⟩
            · rw [split]
              exact torn
            · rw [split, gap, bytes]
        have repair : (scanEnd (scanLines J _ (reached J file from_) [rest, _])).fault = none ↔ _ :=
          repair_holding (J := J) (from_.offset == 0 || 0 < from_.line) bounded failed held clock
        rw [overlooked, ← repair]
        unfold Agree
        dsimp only
        rw [scan_reached failed unterminated, scan_reached failed unterminated, split,
          repair_reached boundary split torn failed]
        simp only [scanTornTail, held, Scan.scanned]
        constructor
        · rintro ⟨same, _⟩ through
          rw [through] at same
          simp at same
        · intro fails
          refine ⟨?_, ?_⟩
          · rw [Option.isSome_iff_ne_none (o := (scanEnd _).fault)]
            simpa using fails
          · intro impossible
            cases impossible

end

/-- A first write that stopped after nine bytes, and a second that stopped at the closing brace of its mark. -/
def markCut : Bytes := (write (record 1 quiet.now "first" .null)).take 9 ++ newline :: write (tornGapRecord 2 9 quiet)

theorem forecast_agrees_markCut :
    Agree compactReader markCut default quiet ↔ ¬Overlooked compactReader markCut default := by
  apply forecast_agrees_iff
  · exact ⟨Nat.zero_le _, by decide⟩
  · decide +kernel

/-- The forecast refuses a log that the repair then reads. -/
theorem forecast_refuses_markCut :
    (scan compactReader markCut default .forecast quiet).fault.isSome = true ∧
      (scan compactReader markCut default .repair quiet).fault.isSome = false ∧
      ¬Agree compactReader markCut default quiet := by
  have forecast : (scan compactReader markCut default .forecast quiet).fault.isSome = true := by decide +kernel
  have repair : (scan compactReader markCut default .repair quiet).fault.isSome = false := by decide +kernel
  refine ⟨forecast, repair, ?_⟩
  rintro ⟨same, _⟩
  rw [same.mp forecast] at repair
  cases repair

end CommonMeasure.Evidence
