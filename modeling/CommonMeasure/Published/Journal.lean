import CommonMeasure.Evidence.Writers
import CommonMeasure.Json.Compact

namespace CommonMeasure.Published

open Json Evidence

/-! ### Exactly one of a list -/

def Never {α : Type} (P : α → Prop) (xs : List α) : Prop := ∀ x ∈ xs, ¬P x

def Once {α : Type} (P : α → Prop) (xs : List α) : Prop :=
  ∃ before x after, xs = before ++ x :: after ∧ P x ∧ Never P before ∧ Never P after

section

variable {α : Type} {P : α → Prop} {xs ys : List α}

theorem Never.append (a : Never P xs) (b : Never P ys) : Never P (xs ++ ys) :=
  fun x listed => (List.mem_append.mp listed).elim (a x) (b x)

theorem Once.append_never (once : Once P xs) (never : Never P ys) : Once P (xs ++ ys) := by
  obtain ⟨before, x, after, rfl, here, earlier, later⟩ := once
  exact ⟨before, x, after ++ ys, by simp, here, earlier, later.append never⟩

theorem Never.append_once (never : Never P xs) (once : Once P ys) : Once P (xs ++ ys) := by
  obtain ⟨before, x, after, rfl, here, earlier, later⟩ := once
  exact ⟨xs ++ before, x, after, by simp, here, never.append earlier, later⟩

theorem once_or_never {place : Nat} (only : ∀ i x, xs[i]? = some x → P x → i = place) : Never P xs ∨ Once P xs := by
  by_cases never : Never P xs
  · exact .inl never
  · right
    unfold Never at never
    push Not at never
    obtain ⟨x, listed, here⟩ := never
    obtain ⟨i, within, rfl⟩ := List.getElem_of_mem listed
    have at_ : i = place := only i _ (List.getElem?_eq_getElem within) here
    refine ⟨xs.take i, xs[i], xs.drop (i + 1), ?_, here, ?_, ?_⟩
    · rw [List.getElem_cons_drop, List.take_append_drop]
    · intro y early holds
      obtain ⟨j, short, rfl⟩ := List.getElem_of_mem early
      rw [List.length_take] at short
      rw [List.getElem_take] at holds
      have same := only j _ (List.getElem?_eq_getElem (by omega)) holds
      omega
    · intro y late holds
      obtain ⟨j, short, rfl⟩ := List.getElem_of_mem late
      rw [List.length_drop] at short
      rw [List.getElem_drop] at holds
      have same := only (i + 1 + j) _ (List.getElem?_eq_getElem (by omega)) holds
      omega

end

def Holds (event : String) (payload : Value) (line : Bytes) : Prop :=
  ∃ n timestamp, line = write (record n timestamp event payload)

theorem write_object_prefix {a b : List (String × Value)} (prefixed : write (.object a) <+: write (.object b)) : a = b := by
  have read : ∀ v : Value, v.depth ≤ max (Value.object a).depth (Value.object b).depth →
      readDocument (max (Value.object a).depth (Value.object b).depth) (write v) = some v := fun v shallow => by
    rw [readDocument_write, if_pos shallow]
  by_cases same : write (.object a) = write (.object b)
  · have left := read (.object a) (Nat.le_max_left _ _)
    rw [same, read (.object b) (Nat.le_max_right _ _)] at left
    cases left
    rfl
  · have left := read (.object a) (Nat.le_max_left _ _)
    rw [readDocument_cut prefixed same] at left
    cases left

theorem holds_cut {line : Bytes} {n : Nat} {timestamp event event' : String} {payload payload' : Value}
    (cut : line <+: write (record n timestamp event payload)) (holds : Holds event' payload' line) :
    event' = event ∧ payload' = payload := by
  obtain ⟨m, other, rfl⟩ := holds
  have same := write_object_prefix cut
  simp only [List.cons.injEq, Prod.mk.injEq, Value.string.injEq, true_and, and_true] at same
  exact ⟨same.2.2.1, same.2.2.2⟩

structure EvidenceLog where
  file : Bytes
  writer : Writer

def EvidenceLog.create : EvidenceLog := ⟨[], .opened⟩

structure Attempt where
  flush_clock : Clock
  flush : Outcome
  clock : Clock
  outcome : Outcome

def EvidenceLog.append_locked (log : EvidenceLog) (clock : Clock) (outcome : Outcome) (event : String) (payload : Value) :
    EvidenceLog :=
  let a := appendLocked log.writer.counted log.file clock event payload
  { file := log.file ++ outcome.written a.bytes
    writer := match outcome with
      | .ok => ⟨a.counted, none⟩
      | .cut _ now error => log.writer.noteWriteFailure now ("append of " ++ event ++ " failed: " ++ error) }

def EvidenceLog.append (log : EvidenceLog) (attempt : Attempt) (event : String) (payload : Value) : EvidenceLog :=
  match log.writer.pendingGap with
  | none => log.append_locked attempt.clock attempt.outcome event payload
  | some gap =>
    let a := appendLocked log.writer.counted log.file attempt.flush_clock "evidence_gap" gap.payload
    let file := log.file ++ attempt.flush.written a.bytes
    match attempt.flush with
    | .ok => EvidenceLog.append_locked ⟨file, ⟨a.counted, none⟩⟩ attempt.clock attempt.outcome event payload
    | .cut _ now _ => ⟨file, { log.writer with pendingGap := some { gap with to_ := now } }⟩

def EvidenceLog.returns (log : EvidenceLog) (attempt : Attempt) : Prop :=
  (log.writer.pendingGap.isSome = true → attempt.flush = .ok) ∧ attempt.outcome = .ok

section

variable {log : EvidenceLog}

theorem written_pieces {file : Bytes} {counted : Counted} (counts : Counts file counted) (clock : Clock) (outcome : Outcome)
    (event : String) (payload : Value) :
    ∃ pieces, fileLines (file ++ outcome.written (appendLocked counted file clock event payload).bytes) =
        fileLines file ++ pieces ∧
      (∀ event' payload' i piece, pieces[i]? = some piece → Holds event' payload' piece → event' ≠ "evidence_gap" →
        i = (mark (splitLines file).1.length (splitLines file).2 clock).length ∧ event' = event ∧ payload' = payload) ∧
      (outcome = .ok → ∃ piece ∈ pieces, Holds event payload piece) := by
  obtain ⟨_, recordIs, bytes, _⟩ := appendLocked_spec rfl counts clock event payload
  have free := marked_free (splitLines file).1.length (splitLines file).2 clock
    (appendLocked counted file clock event payload).record
  have prefixed : outcome.written (appendLocked counted file clock event payload).bytes <+:
      opening (splitLines file).2 ++ joinLines (mark (splitLines file).1.length (splitLines file).2 clock ++
        [write (appendLocked counted file clock event payload).record]) := by
    rw [← bytes]
    exact outcome.written_prefix _
  obtain ⟨_, pieces, same, each⟩ := fileLines_cut free prefixed
  refine ⟨pieces, same, ?_, ?_⟩
  · intro event' payload' i piece there holds other
    obtain ⟨line, added, cut⟩ := each i piece there
    rw [List.getElem?_append] at added
    split at added
    · -- A mark is the line of a gap.
      have member := List.mem_of_getElem? added
      unfold mark at member
      split at member
      · cases member
      · rw [List.mem_singleton.mp member] at cut
        exact (other (holds_cut cut holds).1).elim
    · rename_i past
      have zero : i - (mark (splitLines file).1.length (splitLines file).2 clock).length = 0 := by
        by_contra more
        rw [List.getElem?_eq_none (by simp; omega)] at added
        cases added
      rw [zero] at added
      cases added
      rw [recordIs] at cut
      exact ⟨by omega, holds_cut cut holds⟩
  · rintro rfl
    have lines := append_lines counts clock event payload
    have whole : fileLines (file ++ (appendLocked counted file clock event payload).bytes) =
        fileLines file ++ (mark (splitLines file).1.length (splitLines file).2 clock ++
          [write (appendLocked counted file clock event payload).record]) := by
      rw [fileLines, lines, closed, if_pos rfl, List.append_nil]
    rw [Outcome.written, whole] at same
    rw [← List.append_cancel_left same]
    exact ⟨_, List.mem_append_right _ (List.mem_singleton_self _), _, _, by rw [recordIs]⟩

structure Adds (log after : EvidenceLog) (event : String) (payload : Value) (pieces : List Bytes) : Prop where
  lines : fileLines after.file = fileLines log.file ++ pieces
  others : ∀ event' payload', event' ≠ "evidence_gap" → event' ≠ event ∨ payload' ≠ payload →
    Never (Holds event' payload') pieces
  own : event ≠ "evidence_gap" → Never (Holds event payload) pieces ∨ Once (Holds event payload) pieces

theorem append_locked_adds (counts : Counts log.file log.writer.counted) (clock : Clock) (outcome : Outcome)
    (event : String) (payload : Value) :
    ∃ pieces, Adds log (log.append_locked clock outcome event payload) event payload pieces ∧
      (outcome = .ok → ∃ piece ∈ pieces, Holds event payload piece) := by
  obtain ⟨pieces, lines, places, landed⟩ := written_pieces counts clock outcome event payload
  refine ⟨pieces, ⟨lines, ?_, ?_⟩, landed⟩
  · intro event' payload' other different piece listed holds
    obtain ⟨i, there⟩ := List.getElem?_of_mem listed
    obtain ⟨_, sameEvent, samePayload⟩ := places event' payload' i piece there holds other
    exact different.elim (· sameEvent) (· samePayload)
  · intro other
    exact once_or_never fun i piece there holds => (places event payload i piece there holds other).1

theorem append_locked_counts (counts : Counts log.file log.writer.counted) (clock : Clock) (outcome : Outcome)
    (event : String) (payload : Value) :
    Counts (log.append_locked clock outcome event payload).file
      (log.append_locked clock outcome event payload).writer.counted := by
  cases outcome with
  | ok => exact (appendLocked_spec rfl counts clock event payload).2.2.2
  | cut count now error =>
    have kept : ∀ writer : Writer, (writer.noteWriteFailure now ("append of " ++ event ++ " failed: " ++ error)).counted =
        writer.counted := by
      intro writer
      unfold Writer.noteWriteFailure
      split <;> rfl
    show Counts _ (log.writer.noteWriteFailure now _).counted
    rw [kept]
    exact counts.append _

def Owing (log : EvidenceLog) : Prop :=
  log.writer.pendingGap.isSome = true ∨ ∃ line ∈ fileLines log.file, ∃ payload, Holds "evidence_gap" payload line

theorem append_locked_owing (counts : Counts log.file log.writer.counted) (clock : Clock) {outcome : Outcome}
    (event : String) (payload : Value) (lost : outcome ≠ .ok ∨
      ∃ line ∈ fileLines log.file, ∃ gap, Holds "evidence_gap" gap line) :
    Owing (log.append_locked clock outcome event payload) := by
  obtain failed | ⟨line, listed, gap, holds⟩ := lost
  · left
    cases outcome with
    | ok => exact (failed rfl).elim
    | cut count now error =>
      show (log.writer.noteWriteFailure now _).pendingGap.isSome = true
      unfold Writer.noteWriteFailure
      split <;> rfl
  · right
    obtain ⟨pieces, adds, _⟩ := append_locked_adds counts clock outcome event payload
    exact ⟨line, by rw [adds.lines]; exact List.mem_append_left _ listed, gap, holds⟩

theorem append_spec (counts : Counts log.file log.writer.counted) (attempt : Attempt) (event : String) (payload : Value) :
    ∃ pieces, Adds log (log.append attempt event payload) event payload pieces ∧
      Counts (log.append attempt event payload).file (log.append attempt event payload).writer.counted ∧
      (log.returns attempt → ∃ piece ∈ pieces, Holds event payload piece) ∧
      (Owing log ∨ ¬log.returns attempt → Owing (log.append attempt event payload)) := by
  unfold EvidenceLog.append EvidenceLog.returns Owing
  cases owed : log.writer.pendingGap with
  | none =>
    obtain ⟨pieces, adds, landed⟩ := append_locked_adds counts attempt.clock attempt.outcome event payload
    refine ⟨pieces, adds, append_locked_counts counts _ _ event payload, fun returned => landed returned.2, fun lost => ?_⟩
    apply append_locked_owing counts attempt.clock event payload
    obtain (held | stands) | failed := lost
    · cases held
    · exact .inr stands
    · exact .inl fun ok => failed ⟨fun held => (nomatch held), ok⟩
  | some gap =>
    obtain ⟨pieces, lines, places, landed⟩ :=
      written_pieces counts attempt.flush_clock attempt.flush "evidence_gap" gap.payload
    have unrelated : ∀ event' payload', event' ≠ "evidence_gap" → Never (Holds event' payload') pieces := by
      intro event' payload' other piece listed holds
      obtain ⟨i, there⟩ := List.getElem?_of_mem listed
      exact other (places event' payload' i piece there holds other).2.1
    cases flush : attempt.flush with
    | cut count now error =>
      rw [flush] at lines
      refine ⟨pieces, ⟨lines, fun event' payload' other _ => unrelated event' payload' other,
        fun other => .inl (unrelated event payload other)⟩, counts.append _, ?_, fun _ => .inl rfl⟩
      intro returned
      cases returned.1 rfl
    | ok =>
      rw [flush] at lines landed
      obtain ⟨piece, listed, holds⟩ := landed rfl
      have flushed : Counts (log.file ++ (appendLocked log.writer.counted log.file attempt.flush_clock "evidence_gap"
          gap.payload).bytes) (appendLocked log.writer.counted log.file attempt.flush_clock "evidence_gap"
          gap.payload).counted := (appendLocked_spec rfl counts attempt.flush_clock "evidence_gap" gap.payload).2.2.2
      obtain ⟨more, adds, landed⟩ := @append_locked_adds ⟨_, ⟨_, none⟩⟩ flushed attempt.clock attempt.outcome event payload
      refine ⟨pieces ++ more, ⟨?_, ?_, ?_⟩, @append_locked_counts ⟨_, ⟨_, none⟩⟩ flushed _ _ event payload, ?_, ?_⟩
      · rw [← List.append_assoc]
        exact adds.lines.trans (congrArg (· ++ more) lines)
      · exact fun event' payload' other different =>
          (unrelated event' payload' other).append (adds.others event' payload' other different)
      · exact fun other => (adds.own other).imp (unrelated event payload other).append
          (unrelated event payload other).append_once
      · intro returned
        obtain ⟨own, there, holds⟩ := landed returned.2
        exact ⟨own, List.mem_append_right _ there, holds⟩
      · intro _
        refine @append_locked_owing ⟨_, ⟨_, none⟩⟩ flushed attempt.clock _ event payload (.inr ⟨piece, ?_, _, holds⟩)
        show piece ∈ fileLines (log.file ++ _)
        rw [Outcome.written] at lines
        rw [lines]
        exact List.mem_append_right _ listed

end

structure Entry where
  attempt : Attempt
  event : String
  payload : Value

def EvidenceLog.run (log : EvidenceLog) (entries : List Entry) : EvidenceLog :=
  entries.foldl (fun log entry => log.append entry.attempt entry.event entry.payload) log

theorem create_counts : Counts EvidenceLog.create.file EvidenceLog.create.writer.counted := counts_default []

theorem run_spec {log : EvidenceLog} (counts : Counts log.file log.writer.counted) (entries : List Entry) :
    Counts (log.run entries).file (log.run entries).writer.counted ∧ (Owing log → Owing (log.run entries)) ∧
      ∃ pieces, fileLines (log.run entries).file = fileLines log.file ++ pieces ∧
        ∀ event payload, event ≠ "evidence_gap" → (∀ entry ∈ entries, event ≠ entry.event ∨ payload ≠ entry.payload) →
          Never (Holds event payload) pieces := by
  induction entries generalizing log with
  | nil => exact ⟨counts, id, [], (List.append_nil _).symm, fun _ _ _ _ _ listed => nomatch listed⟩
  | cons entry entries ih =>
    obtain ⟨pieces, adds, counted, _, owes⟩ := append_spec counts entry.attempt entry.event entry.payload
    obtain ⟨counts', owing, more, lines, absent⟩ := ih counted
    refine ⟨counts', fun owed => owing (owes (.inl owed)), pieces ++ more, ?_, ?_⟩
    · rw [← List.append_assoc, ← adds.lines]
      exact lines
    · intro event payload other different
      obtain ⟨here, later⟩ := List.forall_mem_cons.mp different
      exact (adds.others event payload other here).append (absent event payload other later)

theorem run_once (before after : List Entry) (entry : Entry) (other : entry.event ≠ "evidence_gap")
    (alone : ∀ e ∈ before ++ after, entry.event ≠ e.event ∨ entry.payload ≠ e.payload) :
    let lines := fileLines (EvidenceLog.create.run (before ++ entry :: after)).file
    (Never (Holds entry.event entry.payload) lines ∨ Once (Holds entry.event entry.payload) lines) ∧
      (Once (Holds entry.event entry.payload) lines ∨ Owing (EvidenceLog.create.run (before ++ entry :: after))) := by
  obtain ⟨earlier, later⟩ := List.forall_mem_append.mp alone
  obtain ⟨counts, _, first, firstLines, firstAbsent⟩ := run_spec create_counts before
  obtain ⟨own, adds, counted, landed, owes⟩ := append_spec counts entry.attempt entry.event entry.payload
  obtain ⟨_, owing, last, lastLines, lastAbsent⟩ := run_spec counted after
  have lines : fileLines (EvidenceLog.create.run (before ++ entry :: after)).file = first ++ (own ++ last) := by
    rw [EvidenceLog.run, List.foldl_append, List.foldl_cons]
    show fileLines (((EvidenceLog.create.run before).append entry.attempt entry.event entry.payload).run after).file = _
    rw [lastLines, adds.lines, firstLines, List.append_assoc]
    rfl
  have start : Never (Holds entry.event entry.payload) first := firstAbsent _ _ other earlier
  have end_ : Never (Holds entry.event entry.payload) last := lastAbsent _ _ other later
  have whole : ∀ held : Once (Holds entry.event entry.payload) own,
      Once (Holds entry.event entry.payload) (first ++ (own ++ last)) :=
    fun held => start.append_once (held.append_never end_)
  dsimp only
  rw [lines]
  constructor
  · exact (adds.own other).imp (fun never => start.append (never.append end_)) whole
  · by_cases returned : (EvidenceLog.create.run before).returns entry.attempt
    · left
      obtain ⟨piece, listed, holds⟩ := landed returned
      exact whole ((adds.own other).resolve_left fun never => never piece listed holds)
    · right
      have owed := owing (owes (.inr returned))
      rwa [EvidenceLog.run, List.foldl_append, List.foldl_cons]

end CommonMeasure.Published
