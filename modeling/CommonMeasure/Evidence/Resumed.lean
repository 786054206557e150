import CommonMeasure.Evidence.Forecast

namespace CommonMeasure.Evidence
open Json

/-- Check that the log reads from `from_` on; no record is kept. -/
def validate (J : Reader) (file : Bytes) (from_ : LogPosition) (tail : TornTail) (clock : Clock) : Scanned :=
  { scan J file from_ tail clock with records := [] }

/-- A scan of a grown log resumed where `first` ended, beside one from the start. -/
structure Resumed (first resumed whole : Scanned) : Prop where
  fault : resumed.fault = whole.fault
  end_ : resumed.end_ = whole.end_
  file : resumed.file = whole.file
  tears : first.tears.filter (·.marked) ++ resumed.tears = whole.tears
  records : first.records.filter (·.2 < first.end_.offset) ++ resumed.records = whole.records
  later : ∀ r ∈ resumed.records, first.end_.offset ≤ r.2

/-! ### A scan goes on as one that starts where it stands -/

def Scan.onto (s earlier : Scan) : Scan :=
  { s with tears := earlier.tears ++ s.tears, records := earlier.records ++ s.records }

def Scanned.onto (s : Scanned) (earlier : Scan) : Scanned :=
  { s with tears := earlier.tears ++ s.tears, records := earlier.records ++ s.records }

section

variable {J : Reader} {numbered : Bool} (earlier : Scan)

@[simp] theorem onto_fault (s : Scan) : (s.onto earlier).fault = s.fault := rfl

theorem scanLine_onto (s : Scan) (line : Bytes) :
    scanLine J numbered (s.onto earlier) line = (scanLine J numbered s line).onto earlier := by
  unfold scanLine Scan.onto
  dsimp only
  repeat' split
  all_goals simp

theorem scanLines_onto (s : Scan) (lines : List Bytes) :
    scanLines J numbered (s.onto earlier) lines = (scanLines J numbered s lines).onto earlier := by
  induction lines generalizing s with
  | nil => rfl
  | cons line lines ih =>
    rw [scanLines, scanLines, scanLine_onto, ih, onto_fault]
    split <;> rfl

theorem scanEnd_onto (s : Scan) : scanEnd (s.onto earlier) = (scanEnd s).onto earlier := by
  unfold scanEnd Scan.onto
  dsimp only
  split <;> rfl

theorem scanTornTail_onto (file : Bytes) (s : Scan) (rest : Bytes) (tail : TornTail) (clock : Clock) :
    scanTornTail J numbered file (s.onto earlier) rest tail clock =
      (scanTornTail J numbered file s rest tail clock).onto earlier := by
  cases tail with
  | refuse => rfl
  | forecast =>
    unfold scanTornTail Scan.onto
    dsimp only
    split
    · rfl
    · simp [Scan.scanned, Scanned.onto]
  | repair =>
    unfold scanTornTail
    dsimp only
    rw [show (s.onto earlier).cursor = s.cursor from rfl, scanLines_onto, scanEnd_onto]
    rfl

end

section

variable {J : Reader} {numbered : Bool}

theorem scanLine_end {s : Scan} {line : Bytes} (ok : (scanLine J numbered s line).fault = none)
    (nothing : (scanLine J numbered s line).held = none) :
    (scanLine J numbered s line).end_ = (scanLine J numbered s line).cursor := by
  unfold scanLine at ok nothing ⊢
  dsimp only at ok nothing ⊢
  repeat' split
  all_goals simp_all

theorem scanLines_end {s : Scan} (settled : s.end_ = s.cursor) (lines : List Bytes)
    (ok : (scanLines J numbered s lines).fault = none) (nothing : (scanLines J numbered s lines).held = none) :
    (scanLines J numbered s lines).end_ = (scanLines J numbered s lines).cursor := by
  induction lines using List.reverseRecOn with
  | nil => exact settled
  | append_singleton lines line ih =>
    rw [scanLines_append] at ok nothing ⊢
    cases before : (scanLines J numbered s lines).fault with
    | some fault =>
      rw [scanLines_failed numbered before, before] at ok
      cases ok
    | none =>
      rw [scanLines_one numbered before] at ok nothing ⊢
      exact scanLine_end ok nothing

/-- The records passed on start from `from_` on, before the cursor. -/
structure Spans (from_ : LogPosition) (s : Scan) : Prop where
  forward : from_.offset ≤ s.cursor.offset
  records : ∀ r ∈ s.records, from_.offset ≤ r.2 ∧ r.2 < s.cursor.offset

theorem scanLine_spans {from_ : LogPosition} {s : Scan} (spans : Spans from_ s) (line : Bytes) :
    Spans from_ (scanLine J numbered s line) := by
  have cursor : (scanLine J numbered s line).cursor = _ := scanLine_cursor s line
  have records : (scanLine J numbered s line).records = s.records ∨
      ∃ value, (scanLine J numbered s line).records = s.records ++ [(value, s.cursor.offset)] := by
    unfold scanLine
    dsimp only
    repeat' split
    all_goals simp
  have forward := spans.forward
  constructor
  · rw [cursor]
    dsimp only
    omega
  · intro r member
    rw [cursor]
    dsimp only
    have earlier : r ∈ s.records → from_.offset ≤ r.2 ∧ r.2 < s.cursor.offset + (line.length + 1) := by
      intro member
      have both := spans.records r member
      omega
    rcases records with same | ⟨value, added⟩
    · rw [same] at member
      exact earlier member
    · rw [added, List.mem_append, List.mem_singleton] at member
      rcases member with member | rfl
      · exact earlier member
      · dsimp only
        omega

theorem scanLines_spans {from_ : LogPosition} {s : Scan} (spans : Spans from_ s) (lines : List Bytes) :
    Spans from_ (scanLines J numbered s lines) := by
  induction lines generalizing s with
  | nil => exact spans
  | cons line lines ih =>
    rw [scanLines]
    split
    · exact spans
    · exact ih (scanLine_spans spans line)

@[simp] theorem scanEnd_records (s : Scan) : (scanEnd s).records = s.records := by
  unfold scanEnd
  split <;> rfl

theorem scan_later (file : Bytes) (from_ : LogPosition) (tail : TornTail) (clock : Clock) :
    ∀ r ∈ (scan J file from_ tail clock).records, from_.offset ≤ r.2 := by
  have start : Spans from_ (.start from_) := ⟨Nat.le_refl _, by simp [Scan.start]⟩
  have lines : Spans from_ (scanLines J (from_.offset == 0 || 0 < from_.line) (.start from_)
      (splitLines (file.drop from_.offset)).1) := scanLines_spans start _
  unfold scan
  dsimp only
  generalize scanLines J _ (.start from_) _ = s at lines ⊢
  have reached : ∀ r ∈ s.records, from_.offset ≤ r.2 := fun r member => (lines.records r member).1
  split
  · exact reached
  · split
    · rw [Scan.scanned, scanEnd_records]
      exact reached
    · cases tail with
      | refuse => exact reached
      | forecast =>
        unfold scanTornTail
        dsimp only
        split
        · exact reached
        · simp only [Scan.scanned, List.mem_append, Option.mem_toList, Option.map_eq_some_iff]
          rintro r (member | ⟨value, _, rfl⟩)
          · exact reached r member
          · exact lines.forward
      | repair =>
        unfold scanTornTail
        simp only [Scan.scanned, scanEnd_records]
        exact fun r member => ((scanLines_spans lines _).records r member).1

abbrev reachedEnd (J : Reader) (file : Bytes) : Scan := scanLines J true (.start default) (splitLines file).1

theorem reachedEnd_cursor {file : Bytes} (ok : (reachedEnd J file).fault = none) :
    (reachedEnd J file).cursor = ⟨(joinLines (splitLines file).1).length, (splitLines file).1.length⟩ := by
  rw [scanLines_cursor _ _ ok]
  simp [Scan.start, default]

structure Through (J : Reader) (file : Bytes) (tail : TornTail) (first : Scanned) (unmarked : List Tear)
    (unsettled : List (Value × Nat)) : Prop where
  ok : (reachedEnd J first.file).fault = none
  nothing : (reachedEnd J first.file).held = none
  end_ : first.end_ = (reachedEnd J first.file).end_
  tears : first.tears = (reachedEnd J first.file).tears ++ unmarked
  records : first.records = (reachedEnd J first.file).records ++ unsettled
  open_ : ∀ tear ∈ unmarked, tear.marked = false
  past : ∀ r ∈ unsettled, r.2 = (reachedEnd J first.file).cursor.offset
  forecast : (tail = .forecast → Terminated file) → unmarked = []
  kept : tail ≠ .repair → first.file = file

theorem drop_joined (file more : Bytes) :
    (file ++ more).drop (joinLines (splitLines file).1).length = (splitLines file).2 ++ more := by
  have whole : file ++ more = joinLines (splitLines file).1 ++ ((splitLines file).2 ++ more) := by
    rw [← List.append_assoc, joinLines_append_splitLines]
  conv_lhs => rw [whole, List.drop_left]

theorem scan_through {file : Bytes} {tail : TornTail} {clock : Clock} (ok : (scan J file default tail clock).fault = none) :
    ∃ unmarked unsettled, Through J file tail (scan J file default tail clock) unmarked unsettled := by
  have whole : scan J file default tail clock =
      if (reachedEnd J file).fault.isSome then (reachedEnd J file).scanned file
      else if (splitLines file).2 = [] then (scanEnd (reachedEnd J file)).scanned file
      else scanTornTail J true file (reachedEnd J file) (splitLines file).2 tail clock := rfl
  rw [whole] at ok ⊢
  split
  · rename_i failed
    rw [if_pos failed] at ok
    simp [Scan.scanned] at ok
    simp [ok] at failed
  · rename_i going
    have standing : (reachedEnd J file).fault = none := by simpa using going
    rw [if_neg going] at ok
    split
    · rename_i terminated
      rw [if_pos terminated] at ok
      obtain ⟨_, nothing⟩ := scanEnd_ok ok
      rw [scanEnd_settled nothing]
      exact ⟨[], [], ⟨standing, nothing, rfl, by simp [Scan.scanned], by simp [Scan.scanned], by simp, by simp, by simp,
        fun _ => rfl⟩⟩
    · rename_i torn
      rw [if_neg torn] at ok
      cases tail with
      | refuse => cases ok
      | forecast =>
        cases held : (reachedEnd J file).held with
        | some line => simp [scanTornTail, held, Scan.scanned] at ok
        | none =>
          refine ⟨[⟨(reachedEnd J file).cursor.line + 1, (splitLines file).2.length, false⟩],
            ((J.fromSlice (splitLines file).2).map fun record => (record, (reachedEnd J file).cursor.offset)).toList, ?_⟩
          simp only [scanTornTail, held, Scan.scanned]
          refine ⟨standing, held, rfl, rfl, rfl, by simp, ?_, ?_, fun _ => rfl⟩
          · simp only [Option.mem_toList, Option.map_eq_some_iff]
            rintro r ⟨value, _, rfl⟩
            rfl
          · intro terminated
            exact (torn (terminated rfl)).elim
      | repair =>
        have cursor := reachedEnd_cursor standing
        obtain ⟨marks, marksIs⟩ : ∃ marks, ((repairTornTail file clock).map Prod.snd).getD [] = marks := ⟨_, rfl⟩
        have lines : scanLines J true (reachedEnd J file)
            (splitLines ((file ++ marks).drop (reachedEnd J file).cursor.offset)).1 = reachedEnd J (file ++ marks) := by
          rw [cursor, drop_joined, ← scanLines_append, reachedEnd, splitLines_resume file marks]
        have scanned : scanTornTail J true file (reachedEnd J file) (splitLines file).2 .repair clock =
            (scanEnd (reachedEnd J (file ++ marks))).scanned (file ++ marks) := by
          rw [scanTornTail, marksIs, lines]
        rw [scanned] at ok ⊢
        obtain ⟨through, nothing⟩ := scanEnd_ok ok
        rw [scanEnd_settled nothing]
        exact ⟨[], [], ⟨through, nothing, rfl, by simp [Scan.scanned], by simp [Scan.scanned], by simp, by simp, by simp,
          fun impossible => (impossible rfl).elim⟩⟩

theorem scan_resumes {file : Bytes} (ok : (reachedEnd J file).fault = none) (nothing : (reachedEnd J file).held = none)
    (more : Bytes) (tail : TornTail) (clock : Clock) :
    scan J (file ++ more) default tail clock =
      (scan J (file ++ more) (reachedEnd J file).end_ tail clock).onto (reachedEnd J file) := by
  have settled : (reachedEnd J file).end_ = (reachedEnd J file).cursor := scanLines_end rfl _ ok nothing
  have cursor := reachedEnd_cursor ok
  have position : (reachedEnd J file).end_ = ⟨_, _⟩ := settled.trans cursor
  have onto : (Scan.start (reachedEnd J file).end_).onto (reachedEnd J file) = reachedEnd J file := by
    have parts : reachedEnd J file = ⟨(reachedEnd J file).end_, (reachedEnd J file).tears, (reachedEnd J file).fault,
      (reachedEnd J file).cursor, (reachedEnd J file).held, (reachedEnd J file).records⟩ := rfl
    conv_rhs => rw [parts, ok, nothing, ← settled]
    simp [Scan.start, Scan.onto]
  have numbered : ((reachedEnd J file).end_.offset == 0 || 0 < (reachedEnd J file).end_.line) = true := by
    rw [position]
    cases (splitLines file).1 <;> simp
  have rest : (file ++ more).drop (reachedEnd J file).end_.offset = (splitLines file).2 ++ more := by
    rw [position]
    exact drop_joined file more
  have lines : scanLines J true (.start default) (splitLines (file ++ more)).1 =
      (scanLines J true (.start (reachedEnd J file).end_) (splitLines ((splitLines file).2 ++ more)).1).onto
        (reachedEnd J file) := by
    rw [splitLines_resume, scanLines_append, ← scanLines_onto, onto]
  have tails : (splitLines (file ++ more)).2 = (splitLines ((splitLines file).2 ++ more)).2 := by rw [splitLines_resume]
  have whole : scan J (file ++ more) default tail clock =
      if (reachedEnd J (file ++ more)).fault.isSome then (reachedEnd J (file ++ more)).scanned (file ++ more)
      else if (splitLines (file ++ more)).2 = [] then (scanEnd (reachedEnd J (file ++ more))).scanned (file ++ more)
      else scanTornTail J true (file ++ more) (reachedEnd J (file ++ more)) (splitLines (file ++ more)).2 tail clock := rfl
  rw [whole, reachedEnd, lines, tails]
  unfold scan
  dsimp only
  rw [numbered, rest, scanTornTail_onto, scanEnd_onto, onto_fault]
  split
  · rfl
  · split <;> rfl

/-- A check resumed where the last one ended finds what one from the start finds, and no record settled before
that end is passed over or passed on again. -/
theorem validate_resumed (J : Reader) (file : Bytes) (tail : TornTail) (clock : Clock)
    (ok : (validate J file default tail clock).fault = none) (more : Bytes) (later : TornTail) (now : Clock) :
    let first := validate J file default tail clock
    let grown := first.file ++ more
    Resumed first (validate J grown first.end_ later now) (validate J grown default later now) ∧
      Resumed (scan J file default tail clock) (scan J grown first.end_ later now) (scan J grown default later now) ∧
      ((tail = .forecast → Terminated file) → first.tears.filter (·.marked) = first.tears) ∧
      (tail ≠ .repair → first.file = file) := by
  obtain ⟨unmarked, unsettled, through⟩ := scan_through (J := J) ok
  have settled := scanLines_end rfl _ through.ok through.nothing
  have start : Spans default (.start default) := ⟨Nat.le_refl _, by simp [Scan.start]⟩
  have spans : Spans default (reachedEnd J (scan J file default tail clock).file) := scanLines_spans start _
  have marked : ∀ tear ∈ (reachedEnd J (scan J file default tail clock).file).tears, tear.marked = true := by
    apply scanLines_tears
    simp [Scan.start]
  have tears : (scan J file default tail clock).tears.filter (·.marked) =
      (reachedEnd J (scan J file default tail clock).file).tears := by
    rw [through.tears, List.filter_append, List.filter_eq_self.mpr marked, List.filter_eq_nil_iff.mpr, List.append_nil]
    intro tear member
    simp [through.open_ tear member]
  have records : (scan J file default tail clock).records.filter (·.2 < (scan J file default tail clock).end_.offset) =
      (reachedEnd J (scan J file default tail clock).file).records := by
    rw [through.records, through.end_, settled, List.filter_append, List.filter_eq_self.mpr, List.filter_eq_nil_iff.mpr,
      List.append_nil]
    · intro r member
      simp [through.past r member]
    · intro r member
      simpa using (spans.records r member).2
  have whole := scan_resumes through.ok through.nothing more later now
  rw [← through.end_] at whole
  have resumed : Resumed (scan J file default tail clock)
      (scan J ((scan J file default tail clock).file ++ more) (scan J file default tail clock).end_ later now)
      (scan J ((scan J file default tail clock).file ++ more) default later now) := by
    rw [whole]
    refine ⟨rfl, rfl, rfl, ?_, ?_, scan_later _ _ _ _⟩
    · rw [tears]
      rfl
    · rw [records]
      rfl
  refine ⟨⟨resumed.fault, resumed.end_, resumed.file, resumed.tears, rfl, ?_⟩, resumed, ?_, through.kept⟩
  · simp [validate]
  · intro terminated
    have all := through.tears
    rw [through.forecast terminated, List.append_nil] at all
    exact tears.trans all.symm

end

/-- A log of one whole record. -/
theorem validate_resumed_record :
    Resumed (validate compactReader (utf8 "\x7b\x7d\n") default .refuse quiet)
        (validate compactReader (utf8 "\x7b\x7d\n" ++ utf8 "null\n") ⟨3, 1⟩ .refuse quiet)
        (validate compactReader (utf8 "\x7b\x7d\n" ++ utf8 "null\n") default .refuse quiet) := by
  have first : (validate compactReader (utf8 "\x7b\x7d\n") default .refuse quiet).end_ = ⟨3, 1⟩ := by decide
  have resumed := validate_resumed compactReader (utf8 "\x7b\x7d\n") .refuse quiet (by decide) (utf8 "null\n")
    .refuse quiet
  exact first ▸ resumed.1

/-- A write that stopped after one byte, and what the next append's repair adds. -/
theorem forecast_tear_twice :
    ¬∀ (file more : Bytes) (clock : Clock), (validate compactReader file default .forecast clock).fault = none →
      Terminated more →
      (validate compactReader file default .forecast clock).tears ++
          (validate compactReader (file ++ more) (validate compactReader file default .forecast clock).end_ .forecast
            clock).tears =
        (validate compactReader (file ++ more) default .forecast clock).tears := by
  intro both
  have twice := both (utf8 "\x7b") (newline :: (write (tornGapRecord 2 1 quiet) ++ [newline])) quiet (by decide)
    (by decide +kernel)
  revert twice
  decide +kernel

end CommonMeasure.Evidence
