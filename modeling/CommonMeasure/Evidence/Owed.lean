import CommonMeasure.Evidence.Writers
import CommonMeasure.Json.Compact

/-!
# Gaps owed

What becomes of the appends of one writer that fail, whatever other writers do between them.
-/

namespace CommonMeasure.Evidence
open Json

inductive Act (ω : Type) where
  | failed (writer : ω) (at_ : Stamp)
  | marked (writer : ω) (sequence : Nat) (record : Value) (gap : PendingGap)
  | returned (writer : ω) (sequence : Nat)

section

variable {J : Reader} {ω : Type} [DecidableEq ω]

def State.Room (s : State ω) (bytes : Bytes) (outcome : Outcome) : Prop :=
  s.file.length + (outcome.written bytes).length < maxFile

instance (s : State ω) (bytes : Bytes) (outcome : Outcome) : Decidable (s.Room bytes outcome) :=
  inferInstanceAs (Decidable (_ < _))

omit [DecidableEq ω] in
theorem State.write_full {s : State ω} {bytes : Bytes} {outcome : Outcome} {next : Bytes → State ω}
    (full : ¬s.Room bytes outcome) : s.write bytes outcome next = s :=
  if_neg full

def State.appendAct (s : State ω) (writer : ω) (clock : Clock) (event : String) (payload : Value) (outcome : Outcome) :
    Option (Act ω) :=
  if (s.writers writer).pendingGap.isSome then none
  else
    let a := appendLocked (s.writers writer).counted s.file clock event payload
    if s.Room a.bytes outcome then
      match outcome with
      | .ok => some (.returned writer a.sequence)
      | .cut _ now _ => some (.failed writer now)
    else none

def State.flushAct (s : State ω) (writer : ω) (clock : Clock) (outcome : Outcome) : Option (Act ω) :=
  match (s.writers writer).pendingGap with
  | none => none
  | some gap =>
    let a := appendLocked (s.writers writer).counted s.file clock "evidence_gap" gap.payload
    if s.Room a.bytes outcome then
      match outcome with
      | .ok => some (.marked writer a.sequence a.record gap)
      | .cut _ now _ => some (.failed writer now)
    else none

def act (s : State ω) : Event J ω → Option (Act ω)
  | .append writer clock event payload outcome => s.appendAct writer clock event payload.1 outcome
  | .flush writer clock outcome => s.flushAct writer clock outcome
  | .repair _ _ => none
  | .note writer now _ => some (.failed writer now)

def acts (s : State ω) : List (Event J ω) → List (Act ω)
  | [] => []
  | event :: events => (act s event).toList ++ acts (step s event) events

def Steady (s : State ω) (event : Event J ω) : Prop :=
  ∀ writer at_, act s event = some (.failed writer at_) →
    ∀ gap, (s.writers writer).pendingGap = some gap → gap.to_ ≤ at_

def AllSteady (s : State ω) : List (Event J ω) → Prop
  | [] => True
  | event :: events => Steady s event ∧ AllSteady (step s event) events

def sinceStep (writer : ω) (seen : List (Act ω)) : Act ω → List (Act ω)
  | .returned other n => if other = writer then [] else seen ++ [.returned other n]
  | a => seen ++ [a]

def since (writer : ω) (history : List (Act ω)) : List (Act ω) := history.foldl (sinceStep writer) []

def PendingGap.Covers (gap : PendingGap) (at_ : Stamp) : Prop := gap.from_ ≤ at_ ∧ at_ ≤ gap.to_

def PendingGap.Recorded (gap : PendingGap) (sequence : Nat) (r : Value) : Prop :=
  ∃ timestamp, r = record sequence timestamp "evidence_gap" gap.payload

/-- Where an append of a run returns, the log holds before its record the writer's gaps that span the failures since its last;
a gap stays owed until it is written; and no append returns while one is owed. -/
def Accounted (events : List (Event J ω)) : Prop :=
  ∀ before event after, events = before ++ event :: after →
    (∀ writer n, act (run (State.created ω) before) event = some (.returned writer n) →
      ((run (State.created ω) before).writers writer).pendingGap = none ∧
      ∀ at_, .failed writer at_ ∈ since writer (acts (State.created ω) before) →
        ∃ m r gap, .marked writer m r gap ∈ since writer (acts (State.created ω) before) ∧ m < n ∧ gap.Covers at_ ∧
          gap.Recorded m r ∧ (splitLines (run (State.created ω) events).file).1[m - 1]? = some (write r)) ∧
    ∀ writer gap, ((run (State.created ω) before).writers writer).pendingGap = some gap →
      (∃ later, ((step (run (State.created ω) before) event).writers writer).pendingGap = some later ∧
        later.from_ = gap.from_ ∧ later.detail = gap.detail) ∨
      ∃ n r, act (run (State.created ω) before) event = some (.marked writer n r gap)

/-! ### What a step does -/

variable {s : State ω}

theorem since_snoc (writer : ω) (history : List (Act ω)) (a : Act ω) :
    since writer (history ++ [a]) = sinceStep writer (since writer history) a := by
  rw [since, List.foldl_append]
  rfl

theorem step_grows (s : State ω) (event : Event J ω) : s.file <+: (step s event).file := by
  have writes : ∀ {bytes outcome} {next : Bytes → State ω}, (∀ file, (next file).file = file) →
      s.file <+: (s.write bytes outcome next).file := by
    intro bytes outcome next file
    rcases s.write_cases bytes outcome next with written | unwritten
    · rw [written, file]
      exact List.prefix_append _ _
    · rw [unwritten]
  cases event with
  | append writer clock event payload outcome =>
    show s.file <+: (s.append writer clock event payload.1 outcome).file
    unfold State.append
    split
    · exact List.prefix_refl _
    · apply writes
      intro file
      cases outcome
      all_goals rfl
  | flush writer clock outcome =>
    show s.file <+: (s.flush writer clock outcome).file
    unfold State.flush
    split
    · exact List.prefix_refl _
    · apply writes
      intro file
      cases outcome
      all_goals rfl
  | repair clock outcome =>
    show s.file <+: (s.repair clock outcome).file
    unfold State.repair
    split
    · exact List.prefix_refl _
    · exact writes fun _ => rfl
  | note writer now detail => exact List.prefix_refl _

theorem run_grows (s : State ω) (events : List (Event J ω)) : s.file <+: (run s events).file := by
  induction events generalizing s with
  | nil => exact List.prefix_refl _
  | cons event events ih => exact (step_grows s event).trans (ih (step s event))

theorem run_append (s : State ω) (before after : List (Event J ω)) : run s (before ++ after) = run (run s before) after :=
  List.foldl_append

def Widened (owed : Option PendingGap) (at_ : Stamp) (now : Option PendingGap) : Prop :=
  match owed with
  | some gap => now = some { gap with to_ := at_ }
  | none => ∃ detail, now = some ⟨at_, at_, detail⟩

theorem noteWriteFailure_widens (writer : Writer) (now : Stamp) (detail : String) :
    Widened writer.pendingGap now (writer.noteWriteFailure now detail).pendingGap := by
  unfold Writer.noteWriteFailure Widened
  cases writer.pendingGap with
  | none => exact ⟨detail, rfl⟩
  | some gap => rfl

theorem setWriter_same (writer : ω) (value : Writer) : s.setWriter writer value writer = value := if_pos rfl

theorem setWriter_other {writer other : ω} (apart : other ≠ writer) (value : Writer) :
    s.setWriter writer value other = s.writers other := if_neg apart

inductive Effect (s next : State ω) : Option (Act ω) → Prop
  | none : (∀ other, (next.writers other).pendingGap = (s.writers other).pendingGap) → Effect s next none
  | failed {writer at_} : Widened (s.writers writer).pendingGap at_ (next.writers writer).pendingGap →
    (∀ other, other ≠ writer → next.writers other = s.writers other) → Effect s next (some (.failed writer at_))
  | marked {writer m r gap} : (s.writers writer).pendingGap = some gap → (next.writers writer).pendingGap = .none →
    (∀ other, other ≠ writer → next.writers other = s.writers other) → 0 < m → gap.Recorded m r →
    (splitLines next.file).1[m - 1]? = some (write r) → Effect s next (some (.marked writer m r gap))
  | returned {writer n} : (s.writers writer).pendingGap = .none → (next.writers writer).pendingGap = .none →
    (∀ other, other ≠ writer → next.writers other = s.writers other) → (splitLines s.file).1.length < n →
    Effect s next (some (.returned writer n))

theorem append_effect (sound : Sound J s) (writer : ω) (clock : Clock) (event : String) (payload : Value)
    (outcome : Outcome) : Effect s (s.append writer clock event payload outcome)
      (s.appendAct writer clock event payload outcome) := by
  unfold State.append State.appendAct
  split
  · exact .none fun _ => rfl
  · rename_i unowed
    have owed : (s.writers writer).pendingGap = none := Option.not_isSome_iff_eq_none.mp unowed
    dsimp only
    by_cases room : s.Room (appendLocked (s.writers writer).counted s.file clock event payload).bytes outcome
    · rw [State.write_room room, if_pos room]
      obtain ⟨sequence, _⟩ := appendLocked_spec rfl (sound.counted writer) clock event payload
      cases outcome with
      | ok =>
        refine .returned owed ?_ (fun other apart => setWriter_other apart _) ?_
        · show (s.setWriter writer _ writer).pendingGap = none
          rw [setWriter_same]
        · omega
      | cut count now error =>
        refine .failed ?_ fun other apart => setWriter_other apart _
        show Widened _ _ (s.setWriter writer _ writer).pendingGap
        rw [setWriter_same]
        exact noteWriteFailure_widens _ _ _
    · rw [State.write_full room, if_neg room]
      exact .none fun _ => rfl

theorem flush_effect (sound : Sound J s) (writer : ω) (clock : Clock) (outcome : Outcome) :
    Effect s (s.flush writer clock outcome) (s.flushAct writer clock outcome) := by
  unfold State.flush State.flushAct
  cases owed : (s.writers writer).pendingGap with
  | none => exact .none fun _ => rfl
  | some gap =>
    dsimp only
    by_cases room : s.Room (appendLocked (s.writers writer).counted s.file clock "evidence_gap" gap.payload).bytes outcome
    · rw [State.write_room room, if_pos room]
      obtain ⟨sequence, recorded, _⟩ := appendLocked_spec rfl (sound.counted writer) clock "evidence_gap" gap.payload
      cases outcome with
      | ok =>
        obtain ⟨positive, _, line⟩ := append_returned (sound.counted writer) clock "evidence_gap" gap.payload
        refine .marked owed ?_ (fun other apart => setWriter_other apart _) positive ⟨clock.now, ?_⟩ line
        · show (s.setWriter writer _ writer).pendingGap = none
          rw [setWriter_same]
        · rw [recorded, sequence]
      | cut count now error =>
        refine .failed ?_ fun other apart => setWriter_other apart _
        show Widened _ _ (s.setWriter writer _ writer).pendingGap
        rw [setWriter_same, owed]
        rfl
    · rw [State.write_full room, if_neg room]
      exact .none fun _ => rfl

theorem step_effect (sound : Sound J s) (event : Event J ω) : Effect s (step s event) (act s event) := by
  cases event with
  | append writer clock event payload outcome => exact append_effect sound writer clock event payload.1 outcome
  | flush writer clock outcome => exact flush_effect sound writer clock outcome
  | repair clock outcome =>
    refine .none fun other => ?_
    show ((s.repair clock outcome).writers other).pendingGap = _
    unfold State.repair
    split
    · rfl
    · rename_i tear bytes _
      rcases s.write_cases bytes outcome fun file => { s with file } with written | unwritten
      · rw [written]
      · rw [unwritten]
  | note writer now detail =>
    refine .failed ?_ fun other apart => setWriter_other apart _
    show Widened _ _ (s.setWriter writer _ writer).pendingGap
    rw [setWriter_same]
    exact noteWriteFailure_widens _ _ _

/-- What a writer's failures since its last append that returned have come to, where its gaps' windows have not shrunk. -/
structure Owes (s : State ω) (history : List (Act ω)) (writer : ω) : Prop where
  spanned : ∀ at_, .failed writer at_ ∈ since writer history →
    (∃ m r gap, .marked writer m r gap ∈ since writer history ∧ gap.Covers at_) ∨
      ∃ gap, (s.writers writer).pendingGap = some gap ∧ gap.Covers at_
  window : ∀ gap, (s.writers writer).pendingGap = some gap → gap.from_ ≤ gap.to_

def Logged (file : Bytes) (history : List (Act ω)) : Prop :=
  ∀ writer m r gap, .marked writer m r gap ∈ history →
    0 < m ∧ gap.Recorded m r ∧ (splitLines file).1[m - 1]? = some (write r)

theorem line_kept {file more : Bytes} (grows : file <+: more) {i : Nat} {line : Bytes}
    (found : (splitLines file).1[i]? = some line) : (splitLines more).1[i]? = some line := by
  obtain ⟨added, same⟩ := CommonMeasure.splitLines_cut grows
  rw [← same, List.getElem?_append_left (List.getElem?_eq_some_iff.mp found).1, found]

omit [DecidableEq ω] in
theorem Logged.grows {file more : Bytes} {history : List (Act ω)} (logged : Logged file history) (grows : file <+: more) :
    Logged more history := by
  intro writer m r gap listed
  obtain ⟨positive, recorded, found⟩ := logged writer m r gap listed
  exact ⟨positive, recorded, line_kept grows found⟩

theorem since_subset (writer : ω) (history : List (Act ω)) : since writer history ⊆ history := by
  induction history using List.reverseRecOn with
  | nil => exact List.Subset.refl _
  | append_singleton history a ih =>
    rw [since_snoc]
    have kept : since writer history ++ [a] ⊆ history ++ [a] :=
      List.append_subset.mpr ⟨List.Subset.trans ih (List.subset_append_left _ _), List.subset_append_right _ _⟩
    unfold sinceStep
    split
    · split
      · exact List.nil_subset _
      · exact kept
    · exact kept

theorem step_logged (sound : Sound J s) {history : List (Act ω)} (logged : Logged s.file history) (event : Event J ω) :
    Logged (step s event).file (history ++ (act s event).toList) := by
  intro writer m r gap listed
  rcases List.mem_append.mp listed with earlier | now
  · exact logged.grows (step_grows s event) writer m r gap earlier
  · have effect := step_effect sound event
    rw [Option.mem_toList] at now
    rw [now] at effect
    cases effect with
    | marked _ _ _ positive recorded found => exact ⟨positive, recorded, found⟩

theorem since_added (writer : ω) (history : List (Act ω)) {a : Act ω} (unreturned : ∀ n, a ≠ .returned writer n) :
    since writer (history ++ [a]) = since writer history ++ [a] := by
  rw [since_snoc]
  unfold sinceStep
  split
  · rename_i other n
    rw [if_neg]
    rintro rfl
    exact unreturned n rfl
  · rfl

theorem Owes.added {history : List (Act ω)} {writer : ω} (owes : Owes s history writer) {next : State ω} {a : Act ω}
    (unreturned : ∀ n, a ≠ .returned writer n)
    (spans : ∀ gap at_, (s.writers writer).pendingGap = some gap → gap.Covers at_ →
      (∃ m r gap, a = .marked writer m r gap ∧ gap.Covers at_) ∨
        ∃ gap, (next.writers writer).pendingGap = some gap ∧ gap.Covers at_)
    (fresh : ∀ at_, a = .failed writer at_ → ∃ gap, (next.writers writer).pendingGap = some gap ∧ gap.Covers at_)
    (window : ∀ gap, (next.writers writer).pendingGap = some gap → gap.from_ ≤ gap.to_) :
    Owes next (history ++ [a]) writer where
  spanned at_ listed := by
    rw [since_added writer history unreturned] at listed ⊢
    rcases List.mem_append.mp listed with earlier | now
    · rcases owes.spanned at_ earlier with ⟨m, r, gap, marked, covers⟩ | ⟨gap, owed, covers⟩
      · exact .inl ⟨m, r, gap, List.mem_append_left _ marked, covers⟩
      · rcases spans gap at_ owed covers with ⟨m, r, gap, rfl, covers⟩ | later
        · exact .inl ⟨m, r, gap, List.mem_append_right _ List.mem_cons_self, covers⟩
        · exact .inr later
    · exact .inr (fresh at_ (List.mem_singleton.mp now).symm)
  window := window

theorem step_owes (sound : Sound J s) {history : List (Act ω)} {writer : ω} (owes : Owes s history writer)
    {event : Event J ω} (steady : Steady s event) :
    Owes (step s event) (history ++ (act s event).toList) writer := by
  have effect := step_effect sound event
  unfold Steady at steady
  generalize act s event = done at effect steady ⊢
  cases effect with
  | none same =>
    rw [Option.toList_none, List.append_nil]
    refine ⟨fun at_ listed => ?_, fun gap owed => owes.window gap (by rw [← same, owed])⟩
    rw [same]
    exact owes.spanned at_ listed
  | @failed other at_ widened others =>
    rw [Option.toList_some]
    by_cases mine : other = writer
    · subst mine
      have later := steady other at_ rfl
      unfold Widened at widened
      cases owed : (s.writers other).pendingGap with
      | none =>
        rw [owed] at widened
        obtain ⟨detail, now⟩ := widened
        refine owes.added (fun _ => nofun) (fun gap _ before => ?_) (fun moment same => ?_) fun gap after => ?_
        · rw [owed] at before
          cases before
        · cases same
          exact ⟨_, now, String.le_refl _, String.le_refl _⟩
        · rw [now] at after
          cases after
          exact String.le_refl _
      | some gap =>
        rw [owed] at widened
        have within := later gap owed
        have window := owes.window gap owed
        refine owes.added (fun _ => nofun) (fun old moment before covers => ?_) (fun moment same => ?_) fun new after => ?_
        · rw [owed] at before
          cases before
          exact .inr ⟨_, widened, covers.1, String.le_trans covers.2 within⟩
        · cases same
          exact ⟨_, widened, String.le_trans window within, String.le_refl _⟩
        · rw [widened] at after
          cases after
          exact String.le_trans window within
    · have kept := others writer fun same => mine same.symm
      refine owes.added (fun _ => nofun) (fun gap moment owed covers => ?_) (fun moment same => ?_) fun gap owed => ?_
      · exact .inr ⟨gap, by rw [kept, owed], covers⟩
      · cases same
        exact (mine rfl).elim
      · rw [kept] at owed
        exact owes.window gap owed
  | @marked other m r gap owed none_ others _ _ _ =>
    rw [Option.toList_some]
    by_cases mine : other = writer
    · subst mine
      refine owes.added (fun _ => nofun) (fun old moment before covers => ?_) (fun moment => nofun) fun gap after => ?_
      · rw [owed] at before
        cases before
        exact .inl ⟨m, r, gap, rfl, covers⟩
      · rw [none_] at after
        cases after
    · have kept := others writer fun same => mine same.symm
      refine owes.added (fun _ => nofun) (fun gap moment owed covers => ?_) (fun moment => nofun) fun gap owed => ?_
      · exact .inr ⟨gap, by rw [kept, owed], covers⟩
      · rw [kept] at owed
        exact owes.window gap owed
  | @returned other n unowed none_ others _ =>
    rw [Option.toList_some]
    by_cases mine : other = writer
    · subst mine
      have emptied : since other (history ++ [.returned other n]) = [] := by
        rw [since_snoc, sinceStep, if_pos rfl]
      refine ⟨fun at_ listed => ?_, fun gap owed => ?_⟩
      · rw [emptied] at listed
        cases listed
      · rw [none_] at owed
        cases owed
    · have kept := others writer fun same => mine same.symm
      refine owes.added (fun _ same => ?_) (fun gap moment owed covers => ?_) (fun moment => nofun) fun gap owed => ?_
      · cases same
        exact mine rfl
      · exact .inr ⟨gap, by rw [kept, owed], covers⟩
      · rw [kept] at owed
        exact owes.window gap owed

theorem step_owed (sound : Sound J s) (event : Event J ω) {writer : ω} {gap : PendingGap}
    (owed : (s.writers writer).pendingGap = some gap) :
    (∃ later, ((step s event).writers writer).pendingGap = some later ∧ later.from_ = gap.from_ ∧
        later.detail = gap.detail) ∨
      ∃ n r, act s event = some (.marked writer n r gap) := by
  have effect := step_effect sound event
  generalize act s event = done at effect ⊢
  cases effect with
  | none same => exact .inl ⟨gap, by rw [same, owed], rfl, rfl⟩
  | @failed other at_ widened others =>
    by_cases mine : other = writer
    · subst mine
      unfold Widened at widened
      rw [owed] at widened
      exact .inl ⟨_, widened, rfl, rfl⟩
    · exact .inl ⟨gap, by rw [others writer fun same => mine same.symm, owed], rfl, rfl⟩
  | @marked other m r written before none_ others _ _ _ =>
    by_cases mine : other = writer
    · subst mine
      rw [owed] at before
      cases before
      exact .inr ⟨m, r, rfl⟩
    · exact .inl ⟨gap, by rw [others writer fun same => mine same.symm, owed], rfl, rfl⟩
  | @returned other n unowed none_ others _ =>
    by_cases mine : other = writer
    · subst mine
      rw [owed] at unowed
      cases unowed
    · exact .inl ⟨gap, by rw [others writer fun same => mine same.symm, owed], rfl, rfl⟩

theorem acts_append (s : State ω) (before after : List (Event J ω)) :
    acts s (before ++ after) = acts s before ++ acts (run s before) after := by
  induction before generalizing s with
  | nil => rfl
  | cons event before ih =>
    rw [List.cons_append, acts, acts, ih, List.append_assoc]
    rfl

theorem AllSteady.append {s : State ω} {before after : List (Event J ω)} (steady : AllSteady s (before ++ after)) :
    AllSteady s before ∧ AllSteady (run s before) after := by
  induction before generalizing s with
  | nil => exact ⟨trivial, steady⟩
  | cons event before ih =>
    obtain ⟨first, rest⟩ := steady
    obtain ⟨kept, last⟩ := ih rest
    exact ⟨⟨first, kept⟩, last⟩

theorem run_logged (events : List (Event J ω)) :
    Logged (run (State.created ω) events).file (acts (State.created ω) events) := by
  induction events using List.reverseRecOn with
  | nil =>
    intro writer m r gap listed
    cases listed
  | append_singleton events event ih =>
    rw [run_append, acts_append, acts, acts, List.append_nil]
    exact step_logged (run_sound (created_sound J ω) events) ih event

theorem run_owes (writer : ω) {events : List (Event J ω)} (steady : AllSteady (State.created ω) events) :
    Owes (run (State.created ω) events) (acts (State.created ω) events) writer := by
  induction events using List.reverseRecOn with
  | nil =>
    refine ⟨fun at_ listed => ?_, fun gap owed => ?_⟩
    · cases listed
    · cases owed
  | append_singleton events event ih =>
    obtain ⟨before, last⟩ := steady.append
    rw [run_append, acts_append, acts, acts, List.append_nil]
    exact step_owes (run_sound (created_sound J ω) events) (ih before) last.1

/-- Where the clock never steps back behind a window, no failure of an append goes without a record of it. -/
theorem failures_accounted {events : List (Event J ω)} (steady : AllSteady (State.created ω) events) : Accounted events := by
  rintro before event after rfl
  have sound := run_sound (created_sound J ω) before
  refine ⟨fun writer n done => ?_, fun writer gap owed => step_owed sound event owed⟩
  have effect := step_effect sound event
  rw [done] at effect
  cases effect with
  | returned unowed _ _ lines =>
    refine ⟨unowed, fun at_ listed => ?_⟩
    rcases (run_owes writer steady.append.1).spanned at_ listed with ⟨m, r, gap, marked, covers⟩ | ⟨gap, owed, _⟩
    · obtain ⟨positive, recorded, found⟩ := run_logged before writer m r gap (since_subset writer _ marked)
      have within := (List.getElem?_eq_some_iff.mp found).1
      refine ⟨m, r, gap, marked, by omega, covers, recorded, ?_⟩
      rw [run_append]
      exact line_kept (run_grows _ _) found
    · rw [unowed] at owed
      cases owed

end

/-! ### One writer, and the clock -/

def payloadless : compactReader.Document := ⟨.object [], trivial⟩

def appended : Event compactReader Unit := .append () ⟨"", "", ""⟩ "e" payloadless .ok

def noted (last : Stamp) : List (Event compactReader Unit) :=
  [.note () "2026-09-29T10:00:10.000Z" "", .note () "2026-09-29T10:00:20.000Z" "", .note () last "",
    .flush () ⟨"", "", ""⟩ .ok]

theorem steady_flushed (s : State Unit) (clock : Clock) : Steady s (.flush () clock .ok : Event compactReader Unit) := by
  intro writer at_ done
  replace done : s.flushAct () clock .ok = some (.failed writer at_) := done
  rw [State.flushAct] at done
  split at done
  · cases done
  · dsimp only at done
    split at done
    all_goals cases done

theorem steady_appended (s : State Unit) : Steady s appended := by
  intro writer at_ done
  replace done : s.appendAct () ⟨"", "", ""⟩ "e" (.object []) .ok = some (.failed writer at_) := done
  rw [State.appendAct] at done
  split at done
  · cases done
  · dsimp only at done
    split at done
    all_goals cases done

theorem noted_steady : AllSteady (State.created Unit) (noted "2026-09-29T10:00:25.000Z" ++ [appended]) := by
  refine ⟨?_, ?_, ?_, steady_flushed _ _, steady_appended _, trivial⟩
  · intro writer at_ done gap owed
    cases owed
  · intro writer at_ done gap owed
    cases done
    cases owed
    decide
  · intro writer at_ done gap owed
    cases done
    cases owed
    decide

theorem failures_accounted_noted : Accounted (noted "2026-09-29T10:00:25.000Z" ++ [appended]) := failures_accounted noted_steady

def Act.failure {ω : Type} : Act ω → Option Stamp
  | .failed _ at_ => some at_
  | _ => none

def Act.window {ω : Type} : Act ω → Option (Stamp × Stamp)
  | .marked _ _ _ gap => some (gap.from_, gap.to_)
  | _ => none

def Act.number {ω : Type} : Act ω → Option Nat
  | .returned _ n => some n
  | _ => none

def steppedBack : List (Act Unit) := since () (acts (State.created Unit) (noted "2026-09-29T10:00:15.000Z"))

/-- A clock that steps back takes the window's end back with it, before a failure already noted. -/
theorem window_taken_back : ¬Accounted (noted "2026-09-29T10:00:15.000Z" ++ [appended]) := by
  intro accounted
  obtain ⟨spans, _⟩ := accounted (noted "2026-09-29T10:00:15.000Z") appended [] rfl
  have done : (act (run (State.created Unit) (noted "2026-09-29T10:00:15.000Z")) appended).bind Act.number =
      some 2 := by
    decide +kernel
  obtain ⟨a, is, number⟩ := Option.bind_eq_some_iff.mp done
  obtain ⟨writer, rfl⟩ : ∃ writer, a = .returned writer 2 := by
    cases a with
    | returned writer n =>
      cases number
      exact ⟨writer, rfl⟩
    | failed => cases number
    | marked => cases number
  have failed : "2026-09-29T10:00:20.000Z" ∈ steppedBack.filterMap Act.failure := by decide +kernel
  obtain ⟨a, listed, failure⟩ := List.mem_filterMap.mp failed
  obtain ⟨other, rfl⟩ : ∃ other, a = .failed other "2026-09-29T10:00:20.000Z" := by
    cases a with
    | failed other at_ =>
      cases failure
      exact ⟨other, rfl⟩
    | returned => cases failure
    | marked => cases failure
  obtain ⟨m, r, gap, marked, _, covers, _⟩ := (spans () 2 is).2 "2026-09-29T10:00:20.000Z" listed
  have window : (gap.from_, gap.to_) ∈ steppedBack.filterMap Act.window := List.mem_filterMap.mpr ⟨_, marked, rfl⟩
  have only : steppedBack.filterMap Act.window = [("2026-09-29T10:00:10.000Z", "2026-09-29T10:00:15.000Z")] := by
    decide +kernel
  rw [only, List.mem_singleton] at window
  have late : "2026-09-29T10:00:20.000Z" ≤ "2026-09-29T10:00:15.000Z" := by
    rw [← (Prod.mk.inj window).2]
    exact covers.2
  revert late
  decide

end CommonMeasure.Evidence
