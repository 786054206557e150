import CommonMeasure.Evidence.Records
import CommonMeasure.Evidence.Writers
import CommonMeasure.Json.Compact

/-!
# A log that is written to and cut short stays readable

A line cut short and then marked by the next write is skipped by every reader.
-/

namespace CommonMeasure.Evidence
open Json

/-! ### One write -/

inductive Legible (J : Reader) (file : Bytes) (records : List Value) : Prop
  | settled : Settled J (fileLines file) records → Legible J file records
  | torn : (splitLines file).2 ≠ [] → blank (splitLines file).2 = false → J.fromSlice (splitLines file).2 = none →
      Settled J (splitLines file).1 records → Legible J file records

section

variable {J : Reader} {file : Bytes} {records rs : List Value} {clock : Clock}

theorem legible_end {lines : List Bytes} (split : splitLines file = (lines, [])) (settled : Settled J lines records) :
    Legible J file records := by
  apply Legible.settled
  rw [fileLines, split]
  simpa [closed] using settled

theorem legible_part {lines : List Bytes} {part : Bytes} {r : Value} (split : splitLines file = (lines, part))
    (settled : Settled J lines records) (entry : Entry J r) (prefixed : part <+: write r) :
    (part ≠ write r ∧ Legible J file records) ∨ (part = write r ∧ Legible J file (records ++ [r])) := by
  by_cases nothing : part = []
  · subst nothing
    exact Or.inl ⟨(write_ne_nil r).symm, legible_end split settled⟩
  · by_cases whole : part = write r
    · refine Or.inr ⟨whole, Legible.settled ?_⟩
      rw [fileLines, split]
      simp only [closed, if_neg nothing]
      exact settled.record (entry.not_blank nothing prefixed) (whole ▸ entry.read)
    · refine Or.inl ⟨whole, Legible.torn ?_ ?_ ?_ ?_⟩
      all_goals rw [split]
      · exact nothing
      · exact entry.not_blank nothing prefixed
      · exact entry.cut prefixed whole
      · exact settled

theorem Legible.marked (legible : Legible J file records) (bounded : file.length < maxFile) (clock : Clock) :
    Settled J (fileLines file ++ (gapOf file clock).map write) (records ++ gapOf file clock) := by
  cases legible with
  | settled settled => exact settled_entries settled (gapOf_entry bounded)
  | torn some_ text unread settled =>
    have parts := splitLines_length file
    unfold maxFile at bounded
    have entry : Entry J (tornGapRecord ((splitLines file).1.length + 2) (splitLines file).2.length clock) :=
      tornGap_entry (by omega) (by omega) clock
    have gap : tornLineGap J (write (tornGapRecord ((splitLines file).1.length + 2) (splitLines file).2.length clock)) =
        some (splitLines file).2.length := tornLineGap_mark (by omega) (by omega) clock
    simp only [fileLines, closed, gapOf, if_neg some_, List.map_cons, List.map_nil, List.append_assoc, List.cons_append,
      List.nil_append]
    exact settled.torn text unread (entry.not_blank (write_ne_nil _) (List.prefix_refl _)) entry.read gap

theorem Legible.write_whole (legible : Legible J file records) (bounded : file.length < maxFile)
    (entries : ∀ r ∈ rs, Entry J r) {bytes : Bytes}
    (bytesIs : bytes = opening (splitLines file).2 ++ joinLines ((gapOf file clock ++ rs).map write)) :
    Terminated (file ++ bytes) ∧ Legible J (file ++ bytes) (records ++ (gapOf file clock ++ rs)) := by
  have free : ∀ line ∈ (gapOf file clock ++ rs).map write, LineFree line := by
    intro line member
    obtain ⟨r, _, rfl⟩ := List.mem_map.mp member
    exact write_lineFree r
  have split : splitLines (file ++ (opening (splitLines file).2 ++ (joinLines _ ++ []))) = _ :=
    splitLines_add rfl free lineFree_nil
  rw [List.append_nil, ← bytesIs] at split
  have settled := settled_entries (legible.marked bounded clock) entries
  refine ⟨by rw [Terminated, split], legible_end split ?_⟩
  simpa [fileLines] using settled

def Spared (J : Reader) (file : Bytes) (clock : Clock) (count : Nat) : Prop :=
  (splitLines file).2 = [] ∨ (J.fromSlice (splitLines file).2).isSome ∨ count = 0 ∨
    (write (tornGapRecord ((splitLines file).1.length + 2) (splitLines file).2.length clock)).length < count

theorem Legible.grow (legible : Legible J file records) (bounded : file.length < maxFile) (entries : ∀ r ∈ rs, Entry J r)
    {done : List Value} (prefixed : done <+: gapOf file clock ++ rs)
    (grounded : Settled J (fileLines file) records ∨ done ≠ []) :
    Settled J (fileLines file ++ done.map write) (records ++ done) := by
  have all : ∀ r ∈ done, Entry J r := by
    intro r member
    rcases List.mem_append.mp (prefixed.subset member) with gap | record
    · exact gapOf_entry bounded r gap
    · exact entries r record
  rcases grounded with settled | some_
  · exact settled_entries settled all
  · have marked : Settled J (fileLines file ++ (gapOf file clock).map write) _ := legible.marked bounded clock
    unfold gapOf at marked prefixed
    split at prefixed
    · rename_i nothing
      rw [if_pos nothing] at marked
      simp only [List.map_nil, List.append_nil] at marked
      exact settled_entries marked all
    · rename_i torn
      rw [if_neg torn] at marked
      rcases cut_cons prefixed with empty | ⟨rest, rfl, _⟩
      · exact (some_ empty).elim
      · have more := settled_entries marked (List.forall_mem_cons.mp all).2
        simpa using more

theorem opening_length (tail : Bytes) : (opening tail).length ≤ 1 := by
  unfold opening
  split <;> simp

theorem Legible.write_cut (legible : Legible J file records) (bounded : file.length < maxFile)
    (entries : ∀ r ∈ rs, Entry J r) {cut : Bytes}
    (prefixed : cut <+: opening (splitLines file).2 ++ joinLines ((gapOf file clock ++ rs).map write))
    (spared : Spared J file clock cut.length) :
    ∃ added, Legible J (file ++ cut) (records ++ added) ∧ added <+: gapOf file clock ++ rs ∧
      (added = gapOf file clock ++ rs →
        (opening (splitLines file).2 ++ joinLines ((gapOf file clock ++ rs).map write)).length ≤ cut.length + 1) := by
  have free : ∀ line ∈ (gapOf file clock ++ rs).map write, LineFree line := by
    intro line member
    obtain ⟨r, _, rfl⟩ := List.mem_map.mp member
    exact write_lineFree r
  have all : ∀ r ∈ gapOf file clock ++ rs, Entry J r := by
    intro r member
    rcases List.mem_append.mp member with gap | record
    · exact gapOf_entry bounded r gap
    · exact entries r record
  have openings := opening_length (splitLines file).2
  rcases splitLines_cut rfl free prefixed with rfl | ⟨whole, more, part, both, rfl, split, ends⟩
  · refine ⟨[], by simpa using legible, List.nil_prefix, ?_⟩
    intro none
    rw [← none]
    simpa using openings
  · obtain ⟨done, left, doneLeft, rfl, rfl⟩ := List.map_eq_append_iff.mp both
    rw [doneLeft] at all ⊢
    have donePrefix : done <+: gapOf file clock ++ rs := ⟨left, doneLeft.symm⟩
    -- Either the lines before the cut are settled, or the cut is the mark of the torn tail.
    have grounded : Settled J (fileLines file ++ done.map write) (records ++ done) ∨
        (done = [] ∧ ∃ gap rest, gapOf file clock = [gap] ∧ left = gap :: rest ∧ part = write gap) := by
      cases done with
      | cons r done => exact Or.inl (legible.grow bounded entries donePrefix (Or.inr (by simp)))
      | nil =>
        cases legible with
        | settled settled => exact Or.inl (by simpa using settled)
        | torn some_ text unread settled =>
          right
          have gap : gapOf file clock =
              [tornGapRecord ((splitLines file).1.length + 2) (splitLines file).2.length clock] := by
            unfold gapOf
            rw [if_neg some_]
          have count : (opening (splitLines file).2 ++ ([] ++ part)).length = 1 + part.length := by
            simp [opening, some_]
            omega
          simp only [List.map_nil, joinLines_nil] at spared ends
          unfold Spared at spared
          rw [count, unread] at spared
          rw [gap] at doneLeft
          refine ⟨rfl, _, rs, gap, doneLeft.symm, ?_⟩
          have leftIs : left = tornGapRecord ((splitLines file).1.length + 2) (splitLines file).2.length clock :: rs :=
            doneLeft.symm
          have reached := ((spared.resolve_left some_).resolve_left (by simp)).resolve_left (by omega)
          rcases ends with rfl | ⟨line, rest, lineIs, cut⟩
          · have some_ := List.length_pos_iff.mpr (write_ne_nil
              (tornGapRecord ((splitLines file).1.length + 2) (splitLines file).2.length clock))
            simp only [List.length_nil] at reached
            omega
          · rw [leftIs, List.map_cons] at lineIs
            obtain ⟨rfl, _⟩ := List.cons.inj lineIs
            exact cut.eq_of_length_le (by omega)
    have lines : splitLines (file ++ (opening (splitLines file).2 ++ (joinLines (done.map write) ++ part))) =
        (fileLines file ++ done.map write, part) := split
    rcases grounded with settled | ⟨rfl, gap, rest, gapIs, rfl, rfl⟩
    · rcases ends with rfl | ⟨line, rest, lineIs, cut⟩
      · refine ⟨done, legible_end lines settled, ⟨left, rfl⟩, ?_⟩
        intro everything
        have none : left = [] := by simpa using everything
        simp [none]
      · obtain ⟨r, left, rfl, rfl, rfl⟩ := List.map_eq_cons_iff.mp lineIs
        have entry := all r (by simp)
        rcases legible_part lines settled entry cut with ⟨_, legible⟩ | ⟨rfl, legible⟩
        · refine ⟨done, legible, ⟨r :: left, rfl⟩, ?_⟩
          intro everything
          simp at everything
        · refine ⟨done ++ [r], by rw [← List.append_assoc records]; exact legible, ⟨left, by simp⟩, ?_⟩
          intro everything
          have none : left = [] := by simpa using everything
          simp [none]
          omega
    · refine ⟨[gap], Legible.settled ?_, ⟨rest, rfl⟩, ?_⟩
      · have marked := legible.marked bounded clock
        rw [gapIs] at marked
        rw [fileLines, lines]
        simpa [closed, write_ne_nil] using marked
      · intro everything
        have none : rest = [] := by simpa using everything
        simp [none]
        omega

end

def Outcome.Spares (J : Reader) (file : Bytes) (clock : Clock) : Outcome → Prop
  | .ok => True
  | .cut count _ _ => Spared J file clock count

def Spares {J : Reader} {ω : Type} (s : State ω) : Event J ω → Prop
  | .append _ clock _ payload outcome => payload.1.depth < recursionLimit ∧ outcome.Spares J s.file clock
  | .flush _ clock outcome => outcome.Spares J s.file clock
  | .repair clock outcome => outcome.Spares J s.file clock
  | .note _ _ _ => True

def RunSpares {J : Reader} {ω : Type} [DecidableEq ω] (s : State ω) : List (Event J ω) → Prop
  | [] => True
  | event :: events => Spares s event ∧ RunSpares (step s event) events

def Completes {J : Reader} {ω : Type} (s : State ω) : Event J ω → Prop
  | .append writer clock event payload .ok => (s.writers writer).pendingGap = none ∧
      s.file.length + (appendLocked (s.writers writer).counted s.file clock event payload.1).bytes.length < maxFile
  | .repair clock .ok => ∀ repaired ∈ repairTornTail s.file clock, s.file.length + repaired.2.length < maxFile
  | _ => False

/-- What a reader finds once the last line is terminated: every record returned, in order, and besides
those only gaps and records cut past their closing brace. -/
structure Reads (J : Reader) {ω : Type} (s : State ω) (records : List Value) : Prop where
  legible : Legible J s.file records
  returned : (s.returned.map Prod.snd).Sublist records
  known : ∀ r ∈ records, r ∈ s.returned.map Prod.snd ∨ r ∈ s.interrupted ∨ r.get "event" = .string "evidence_gap"

theorem created_reads (J : Reader) (ω : Type) : Reads J (State.created ω) [] where
  legible := Legible.settled (by simpa [State.created, fileLines, closed] using Settled.nil)
  returned := List.Sublist.refl _
  known := by simp

section

variable {J : Reader} {ω : Type} {s : State ω} {records : List Value}

theorem Spared.taken {file bytes : Bytes} {clock : Clock} {count : Nat} {rs : List Value} (spared : Spared J file clock count)
    (bytesIs : bytes = opening (splitLines file).2 ++ joinLines ((gapOf file clock ++ rs).map write)) :
    Spared J file clock (bytes.take count).length := by
  by_cases empty : (splitLines file).2 = []
  · exact Or.inl empty
  · rcases (spared.resolve_left empty) with parsed | none | past
    · exact Or.inr (Or.inl parsed)
    · exact Or.inr (Or.inr (Or.inl (by simp [none])))
    · refine Or.inr (Or.inr (Or.inr ?_))
      rw [List.length_take, bytesIs]
      simp only [gapOf, opening, if_neg empty, List.cons_append, List.nil_append, List.map_cons, joinLines_cons,
        List.length_cons, List.length_append]
      omega

theorem Reads.write {file : Bytes} (legible : Legible J file records) (bounded : file.length < maxFile) {r : Value}
    {clock : Clock} {outcome : Outcome} {bytes : Bytes} (entry : Entry J r)
    (bytesIs : bytes = opening (splitLines file).2 ++ joinLines ((gapOf file clock ++ [r]).map Json.write))
    (spares : outcome.Spares J file clock) :
    ∃ gaps, (∀ gap ∈ gaps, gap.get "event" = .string "evidence_gap") ∧
      (Legible J (file ++ outcome.written bytes) (records ++ (gaps ++ [r])) ∧
          bytes.length ≤ (outcome.written bytes).length + 1 ∨
        Legible J (file ++ outcome.written bytes) (records ++ gaps) ∧ ∃ count now error, outcome = .cut count now error) := by
  have entries : ∀ other ∈ [r], Entry J other := by simpa using entry
  cases outcome with
  | ok =>
    refine ⟨gapOf file clock, gapOf_event, Or.inl ⟨?_, Nat.le_succ _⟩⟩
    exact (legible.write_whole bounded entries bytesIs).2
  | cut count now error =>
    have prefixed : bytes.take count <+: opening (splitLines file).2 ++
      joinLines ((gapOf file clock ++ [r]).map Json.write) := by
      rw [← bytesIs]
      exact List.take_prefix _ _
    obtain ⟨added, after, inside, reached⟩ := legible.write_cut bounded entries prefixed (Spared.taken spares bytesIs)
    rcases cut_append inside with ⟨short, _⟩ | ⟨rest, rfl, last⟩
    · refine ⟨added, ?_, Or.inr ⟨after, count, now, error, rfl⟩⟩
      intro gap member
      exact gapOf_event gap (short.subset member)
    · rcases cut_cons last with rfl | ⟨rest, rfl, nothing⟩
      · rw [List.append_nil] at after
        exact ⟨gapOf file clock, gapOf_event, Or.inr ⟨after, count, now, error, rfl⟩⟩
      · rw [List.prefix_nil.mp nothing] at after reached
        refine ⟨gapOf file clock, gapOf_event, Or.inl ⟨after, ?_⟩⟩
        have enough := reached rfl
        rw [← bytesIs] at enough
        exact enough

theorem Legible.repair {file : Bytes} (legible : Legible J file records) (bounded : file.length < maxFile) {clock : Clock}
    {outcome : Outcome} {bytes : Bytes}
    (bytesIs : bytes = opening (splitLines file).2 ++ joinLines ((gapOf file clock).map Json.write))
    (spares : outcome.Spares J file clock) :
    ∃ gaps, (∀ gap ∈ gaps, gap.get "event" = .string "evidence_gap") ∧
      Legible J (file ++ outcome.written bytes) (records ++ gaps) := by
  have none : ∀ other ∈ ([] : List Value), Entry J other := by simp
  rw [← List.append_nil (gapOf file clock)] at bytesIs
  cases outcome with
  | ok => exact ⟨gapOf file clock ++ [], by simpa using gapOf_event, (legible.write_whole bounded none bytesIs).2⟩
  | cut count now error =>
    have prefixed : bytes.take count <+: opening (splitLines file).2 ++
      joinLines ((gapOf file clock ++ []).map Json.write) := by
      rw [← bytesIs]
      exact List.take_prefix _ _
    obtain ⟨added, after, inside, _⟩ := legible.write_cut bounded none prefixed (Spared.taken spares bytesIs)
    refine ⟨added, ?_, after⟩
    intro gap member
    apply gapOf_event gap
    simpa using inside.subset member

theorem appendLocked_records {file : Bytes} (bounded : file.length < maxFile) {counted : Counted}
    (counts : Counts file counted) (clock : Clock) (event : String) {payload : Value} (held : J.Holds payload)
    (shallow : payload.depth < recursionLimit) :
    (appendLocked counted file clock event payload).bytes = opening (splitLines file).2 ++ joinLines ((gapOf file clock ++
        [(appendLocked counted file clock event payload).record]).map Json.write) ∧
      Entry J (appendLocked counted file clock event payload).record ∧
      (appendLocked counted file clock event payload).record.get "event" = .string event := by
  obtain ⟨_, record, bytes, _⟩ := appendLocked_spec rfl counts clock event payload
  have lines := fileLines_length file
  have marks := opening_length (splitLines file).2
  have few := closed_one (splitLines file).2
  rw [fileLines_eq] at lines
  unfold maxFile at bounded
  refine ⟨?_, ?_, ?_⟩
  · rw [bytes, mark_eq, List.map_append]
    rfl
  · rw [record]
    exact record_entry (by omega) clock.now event held shallow
  · rw [record, record_event]

theorem Reads.gaps {next : State ω} (reads : Reads J s records) {gaps : List Value}
    (gap : ∀ r ∈ gaps, r.get "event" = .string "evidence_gap") (legible : Legible J next.file (records ++ gaps))
    (returned : next.returned = s.returned) (interrupted : next.interrupted = s.interrupted) :
    Reads J next (records ++ gaps) where
  legible := legible
  returned := by
    rw [returned]
    exact reads.returned.trans (List.sublist_append_left _ _)
  known := by
    intro r member
    rw [returned, interrupted]
    rcases List.mem_append.mp member with earlier | isGap
    · exact reads.known r earlier
    · exact Or.inr (Or.inr (gap r isGap))

theorem repair_reads (sound : Sound J s) (reads : Reads J s records) (clock : Clock) {outcome : Outcome}
    (spares : outcome.Spares J s.file clock) : ∃ after, Reads J (s.repair clock outcome) after := by
  unfold State.repair
  rw [repairTornTail_spec rfl]
  split
  · exact ⟨records, reads⟩
  · rename_i tear bytes repaired
    split at repaired
    · cases repaired
    · obtain ⟨rfl, rfl⟩ := Prod.mk.inj (Option.some.inj repaired)
      rw [mark_eq]
      rcases State.write_cases s _ outcome _ with written | unwritten
      · rw [written]
        obtain ⟨gaps, gap, legible⟩ := reads.legible.repair sound.bounded rfl spares
        exact ⟨_, reads.gaps gap legible rfl rfl⟩
      · rw [unwritten]
        exact ⟨records, reads⟩

variable [DecidableEq ω]

theorem append_reads (sound : Sound J s) (reads : Reads J s records) (writer : ω) (clock : Clock) (event : String)
    {payload : Value} (held : J.Holds payload) (shallow : payload.depth < recursionLimit) {outcome : Outcome}
    (spares : outcome.Spares J s.file clock) :
    ∃ after, Reads J (s.append writer clock event payload outcome) after := by
  unfold State.append
  split
  · exact ⟨records, reads⟩
  · obtain ⟨bytesIs, entry, _⟩ := appendLocked_records (J := J) sound.bounded (sound.counted writer) clock event held shallow
    obtain ⟨gaps, gap, after⟩ := Reads.write reads.legible sound.bounded entry bytesIs spares
    dsimp only
    rcases State.write_cases s _ outcome _ with written | unwritten
    · rw [written]
      cases outcome with
      | ok =>
        rcases after with ⟨legible, _⟩ | ⟨_, count, now, error, impossible⟩
        · refine ⟨_, legible, ?_, ?_⟩
          · rw [List.map_append]
            exact reads.returned.append (List.sublist_append_right _ _)
          · intro r member
            rw [List.map_append]
            simp only [List.mem_append, List.mem_singleton] at member ⊢
            rcases member with earlier | isGap | rfl
            · rcases reads.known r earlier with returned | interrupted | gapRecord
              · exact Or.inl (Or.inl returned)
              · exact Or.inr (Or.inl interrupted)
              · exact Or.inr (Or.inr gapRecord)
            · exact Or.inr (Or.inr (gap r isGap))
            · exact Or.inl (Or.inr (by simp))
        · cases impossible
      | cut count now error =>
        rcases after with ⟨legible, enough⟩ | ⟨legible, _⟩
        · have reached : (appendLocked (s.writers writer).counted s.file clock event payload).bytes.length ≤ count + 1 := by
            rw [Outcome.written, List.length_take] at enough
            omega
          refine ⟨_, legible, reads.returned.trans (List.sublist_append_left _ _), ?_⟩
          intro r member
          simp only [if_pos reached, List.mem_append, List.mem_singleton] at member ⊢
          rcases member with earlier | isGap | rfl
          · rcases reads.known r earlier with returned | interrupted | gapRecord
            · exact Or.inl returned
            · exact Or.inr (Or.inl (Or.inl interrupted))
            · exact Or.inr (Or.inr gapRecord)
          · exact Or.inr (Or.inr (gap r isGap))
          · exact Or.inr (Or.inl (Or.inr rfl))
        · refine ⟨_, legible, reads.returned.trans (List.sublist_append_left _ _), ?_⟩
          intro r member
          simp only [List.mem_append] at member ⊢
          rcases member with earlier | isGap
          · rcases reads.known r earlier with returned | interrupted | gapRecord
            · exact Or.inl returned
            · exact Or.inr (Or.inl (Or.inl interrupted))
            · exact Or.inr (Or.inr gapRecord)
          · exact Or.inr (Or.inr (gap r isGap))
    · rw [unwritten]
      exact ⟨records, reads⟩

theorem flush_reads (sound : Sound J s) (reads : Reads J s records) (writer : ω) (clock : Clock) {outcome : Outcome}
    (spares : outcome.Spares J s.file clock) : ∃ after, Reads J (s.flush writer clock outcome) after := by
  unfold State.flush
  split
  · exact ⟨records, reads⟩
  · rename_i owed _
    have shallow : owed.payload.depth < recursionLimit := by
      simp [PendingGap.payload, Value.depth, depthMembers, writeFailed, recursionLimit]
    obtain ⟨bytesIs, entry, isGap⟩ := appendLocked_records (J := J) sound.bounded (sound.counted writer) clock
      "evidence_gap" (gap_holds owed) shallow
    obtain ⟨gaps, gap, after⟩ := Reads.write reads.legible sound.bounded entry bytesIs spares
    have added : ∃ more, (∀ r ∈ more, r.get "event" = .string "evidence_gap") ∧ Legible J (s.file ++ outcome.written
        (appendLocked (s.writers writer).counted s.file clock "evidence_gap" owed.payload).bytes) (records ++ more) := by
      rcases after with ⟨legible, _⟩ | ⟨legible, _⟩
      · refine ⟨_, ?_, legible⟩
        intro r member
        rcases List.mem_append.mp member with earlier | last
        · exact gap r earlier
        · rw [List.mem_singleton.mp last, isGap]
      · exact ⟨gaps, gap, legible⟩
    obtain ⟨more, isGap, legible⟩ := added
    dsimp only
    rcases State.write_cases s _ outcome _ with written | unwritten
    · rw [written]
      cases outcome with
      | ok => exact ⟨_, reads.gaps isGap legible rfl rfl⟩
      | cut count now error => exact ⟨_, reads.gaps isGap legible rfl rfl⟩
    · rw [unwritten]
      exact ⟨records, reads⟩

theorem step_reads (sound : Sound J s) (reads : Reads J s records) {event : Event J ω} (spares : Spares s event) :
    ∃ after, Reads J (step s event) after := by
  cases event with
  | append writer clock event payload outcome =>
    exact append_reads sound reads writer clock event payload.2 spares.1 spares.2
  | flush writer clock outcome => exact flush_reads sound reads writer clock spares
  | repair clock outcome => exact repair_reads sound reads clock spares
  | note writer now detail => exact ⟨records, reads.legible, reads.returned, reads.known⟩

theorem run_reads (sound : Sound J s) (reads : Reads J s records) {events : List (Event J ω)}
    (spares : RunSpares s events) : ∃ after, Reads J (run s events) after := by
  induction events generalizing s records with
  | nil => exact ⟨records, reads⟩
  | cons event events ih =>
    obtain ⟨after, next⟩ := step_reads sound reads spares.1
    exact ih (step_sound sound event) next spares.2

theorem completes_terminated (sound : Sound J s) {event : Event J ω} (completes : Completes s event) :
    Terminated (step s event).file := by
  cases event with
  | append writer clock event payload outcome =>
    cases outcome with
    | ok =>
      obtain ⟨nothing, room⟩ := completes
      have lines := append_lines (sound.counted writer) clock event payload.1
      show Terminated (s.append writer clock event payload.1 .ok).file
      unfold State.append
      rw [nothing, if_neg (by simp), State.write_room room]
      show (splitLines (s.file ++ _)).2 = []
      rw [Outcome.written, lines]
    | cut count now error => exact completes.elim
  | repair clock outcome =>
    cases outcome with
    | ok =>
      show Terminated (s.repair clock .ok).file
      unfold State.repair
      have spec : repairTornTail s.file clock = _ := repairTornTail_spec rfl clock
      split
      · rename_i none
        rw [none] at spec
        split at spec
        · assumption
        · cases spec
      · rename_i tear bytes repaired
        have room := completes (tear, bytes) repaired
        rw [State.write_room room]
        rw [repaired] at spec
        split at spec
        · cases spec
        · obtain ⟨rfl, rfl⟩ := Prod.mk.inj (Option.some.inj spec)
          have split : splitLines (s.file ++ (opening (splitLines s.file).2 ++ (joinLines _ ++ []))) = _ :=
            splitLines_add rfl (mark_free (splitLines s.file).1.length (splitLines s.file).2 clock) lineFree_nil
          rw [List.append_nil] at split
          show (splitLines (s.file ++ _)).2 = []
          rw [Outcome.written, split]
    | cut count now error => exact completes.elim
  | flush writer clock outcome => exact completes.elim
  | note writer now detail => exact completes.elim

omit [DecidableEq ω] in
theorem Legible.read {file : Bytes} (legible : Legible J file records) (terminated : Terminated file) :
    read J file = .ok records := by
  rw [read_ok_iff]
  refine ⟨terminated, ?_⟩
  cases legible with
  | settled settled =>
    rw [fileLines, terminated] at settled
    simpa [closed] using settled
  | torn some_ _ _ _ => exact (some_ terminated).elim

/-- The numbers of the records, in order, none past `lines`. -/
def Numbers (lines : Nat) (records : List Value) : Prop :=
  ∃ ns : List Nat, records.map (·.get "seq") = ns.map (fun n => .number (.ofNat n)) ∧ ns.Pairwise (· < ·) ∧
    ∀ n ∈ ns, n ≤ lines

omit [DecidableEq ω] in
theorem Numbers.next {lines n : Nat} (numbers : Numbers lines records) (past : lines < n) {r : Value}
    (seq : r.get "seq" = .number (.ofNat n)) : Numbers n (records ++ [r]) := by
  obtain ⟨ns, same, increasing, within⟩ := numbers
  refine ⟨ns ++ [n], by simp [same, seq], ?_, ?_⟩
  · rw [List.pairwise_append]
    refine ⟨increasing, List.pairwise_singleton _ _, ?_⟩
    intro a member b last
    have bound := within a member
    rw [List.mem_singleton.mp last]
    omega
  · intro a member
    rcases List.mem_append.mp member with earlier | last
    · have bound := within a earlier
      omega
    · rw [List.mem_singleton.mp last]

omit [DecidableEq ω] in
theorem Numbers.nodup {lines : Nat} (numbers : Numbers lines records) : records.Nodup := by
  obtain ⟨ns, same, increasing, _⟩ := numbers
  apply List.Nodup.of_map (fun r => r.get "seq")
  rw [same]
  apply (increasing.imp Nat.ne_of_lt).map
  intro a b different equal
  exact different (Number.ofNat_inj (Value.number.inj equal))

omit [DecidableEq ω] in
theorem settled_numbers {lines : List Bytes} (settled : Settled J lines records)
    (numbered : ∀ (i : Nat) (line : Bytes), lines[i]? = some line → Written J (i + 1) line) :
    Numbers lines.length records := by
  have before {lines more : List Bytes}
      (numbered : ∀ (i : Nat) (line : Bytes), (lines ++ more)[i]? = some line → Written J (i + 1) line) :
      ∀ (i : Nat) (line : Bytes), lines[i]? = some line → Written J (i + 1) line := by
    intro i line found
    exact numbered i line (by rw [List.getElem?_append_left (List.getElem?_eq_some_iff.mp found).1, found])
  induction settled with
  | nil => exact ⟨[], rfl, List.Pairwise.nil, by simp⟩
  | blank _ _ ih =>
    obtain ⟨ns, same, increasing, within⟩ := ih (before numbered)
    refine ⟨ns, same, increasing, ?_⟩
    intro n member
    have bound := within n member
    rw [List.length_append]
    omega
  | @record lines _ line value _ _ parsed ih =>
    have seq := (numbered lines.length line (by simp)).seq parsed
    rw [List.length_append]
    exact (ih (before numbered)).next (Nat.lt_succ_self _) seq
  | @torn lines _ line gap value _ _ _ _ parsed _ ih =>
    have seq := (numbered (lines.length + 1) gap (by simp)).seq parsed
    have next := (ih (before numbered)).next (show lines.length < lines.length + 1 + 1 by omega) seq
    rw [List.length_append]
    exact next

/-- Where no mark is cut short, the log reads after the next write that runs whole: every record returned
is read once and in order, and every other record read is a gap or was cut past its closing brace. -/
theorem read_complete (events : List (Event J ω)) (last : Event J ω)
    (spares : RunSpares (State.created ω) (events ++ [last])) (completes : Completes (run (State.created ω) events) last) :
    ∃ records, read J (run (State.created ω) (events ++ [last])).file = .ok records ∧ records.Nodup ∧
      ((run (State.created ω) (events ++ [last])).returned.map Prod.snd).Sublist records ∧
      ∀ r ∈ records, r ∈ (run (State.created ω) (events ++ [last])).returned.map Prod.snd ∨
        r ∈ (run (State.created ω) (events ++ [last])).interrupted ∨ r.get "event" = .string "evidence_gap" := by
  have sound := run_sound (created_sound J ω) (events ++ [last])
  obtain ⟨records, reads⟩ := run_reads (created_sound J ω) (created_reads J ω) spares
  have terminated : Terminated (run (State.created ω) (events ++ [last])).file := by
    rw [run, List.foldl_append]
    exact completes_terminated (run_sound (created_sound J ω) events) completes
  have readOk := reads.legible.read terminated
  refine ⟨records, readOk, ?_, reads.returned, reads.known⟩
  have settled := (read_ok_iff.mp readOk).2
  have numbered := sound.numbered
  rw [fileLines, terminated] at numbered
  simp only [closed, if_true, List.append_nil] at numbered
  exact (settled_numbers settled numbered).nodup

end

/-! ### A failed write, and a write that fails while it marks one -/

def full : Outcome := .cut 9 "2026-09-29T10:00:03.000Z" "no space left on device"

def appends (writer : Nat) (event : String) (payload : Value) (outcome : Outcome) : Event compactReader Nat :=
  .append writer quiet event ⟨payload, trivial⟩ outcome

def nested : Nat → Value
  | 0 => .null
  | depth + 1 => .array [nested depth]

theorem read_complete_full :
    ∃ records, read compactReader (run (State.created Nat) ([appends 0 "first" .null full] ++
        [appends 1 "second" .null .ok])).file = .ok records ∧ records.Nodup ∧
      ((run (State.created Nat) ([appends 0 "first" .null full] ++ [appends 1 "second" .null .ok])).returned.map
        Prod.snd).Sublist records ∧
      ∀ r ∈ records, r ∈ (run (State.created Nat) ([appends 0 "first" .null full] ++
          [appends 1 "second" .null .ok])).returned.map Prod.snd ∨
        r ∈ (run (State.created Nat) ([appends 0 "first" .null full] ++ [appends 1 "second" .null .ok])).interrupted ∨
        r.get "event" = .string "evidence_gap" := by
  apply read_complete [appends 0 "first" .null full] (appends 1 "second" .null .ok)
  · exact ⟨⟨by decide, Or.inl rfl⟩, ⟨by decide, trivial⟩, trivial⟩
  · exact ⟨rfl, by decide +kernel⟩

theorem read_fails {J : Reader} {file : Bytes} (fails : (read J file).toBool = false) :
    ∀ records, read J file ≠ .ok records := by
  intro records ok
  rw [ok] at fails
  cases fails

/-- Two writes in a row cut short, the second inside its mark, leave a log that no write mends. Nor does a
log read that holds a payload nested too deep to read back. -/
theorem read_full_twice :
    (Completes (run (State.created Nat) [appends 0 "first" .null full, appends 1 "second" .null full])
        (appends 2 "third" .null .ok) ∧
      ∀ records, read compactReader (run (State.created Nat) [appends 0 "first" .null full,
        appends 1 "second" .null full, appends 2 "third" .null .ok]).file ≠ .ok records) ∧
    Completes (State.created Nat) (appends 0 "first" (nested 127) .ok) ∧
      ∀ records, read compactReader (run (State.created Nat) [appends 0 "first" (nested 127) .ok]).file ≠ .ok records := by
  refine ⟨⟨⟨rfl, by decide +kernel⟩, ?_⟩, ⟨rfl, by decide +kernel⟩, ?_⟩
  · exact read_fails (by decide +kernel)
  · exact read_fails (by decide +kernel)

end CommonMeasure.Evidence
