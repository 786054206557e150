import CommonMeasure.Allowance.Ledger

/-!
# Reading what was appended

A file is `Ready` where nothing but white space follows its last newline: a line appended to it is read after its
entries.
-/

namespace CommonMeasure.Allowance

open Json

section

variable {Uuid Time : Type} {platform : Platform Uuid Time} {file : Bytes} {entries : List (LedgerEntry platform)}

/-! ### Lines -/

theorem LedgerEntry.line_ends (entry : LedgerEntry platform) : ∃ members, entry.line = 123 :: (members ++ [125]) := by
  obtain ⟨body, ends⟩ := writeMembers_ends entry.members
  exact ⟨body, by rw [LedgerEntry.line, write, ends]⟩

theorem stripReturn_line (before : Bytes) (entry : LedgerEntry platform) :
    stripReturn (before ++ entry.line) = before ++ entry.line := by
  obtain ⟨members, line⟩ := entry.line_ends
  apply if_neg
  rw [line, ← List.cons_append, ← List.append_assoc, List.getLast?_concat]
  decide

theorem blank_line (before : Bytes) (entry : LedgerEntry platform) : blank (before ++ entry.line) = false := by
  obtain ⟨members, line⟩ := entry.line_ends
  rw [line, Bool.eq_false_iff]
  intro all
  rcases blank_bytes all 123 (by simp) with high | white
  · exact absurd high (by decide)
  · exact absurd white (by decide)

theorem isWhite_of_isSpace {b : UInt8} (space : isSpace b = true) : isWhite b = true :=
  forall_byte (P := fun b => isSpace b = true → isWhite b = true) (by decide +kernel) b space

theorem readLines_append {number : Nat} {lines more : List Bytes} :
    readLines platform number (lines ++ more) = .ok entries ↔
      ∃ first later, readLines platform number lines = .ok first ∧
        readLines platform (number + lines.length) more = .ok later ∧ entries = first ++ later := by
  induction lines generalizing number entries with
  | nil => simp [readLines]
  | cons line lines ih =>
    have count : number + 1 + lines.length = number + (line :: lines).length := by
      rw [List.length_cons]
      omega
    rw [List.cons_append, readLines, readLines]
    split
    · rw [ih, count]
    · split
      · simp
      · rename_i entry _
        constructor
        · intro read
          cases rest : readLines platform (number + 1) (lines ++ more) with
          | error fault =>
            rw [rest] at read
            cases read
          | ok tail =>
            rw [rest] at read
            obtain ⟨first, later, readFirst, readLater, rfl⟩ := ih.mp rest
            exact ⟨entry :: first, later, by rw [readFirst]; rfl, count ▸ readLater, (Except.ok.inj read).symm⟩
        · rintro ⟨first, later, readFirst, readLater, rfl⟩
          cases rest : readLines platform (number + 1) lines with
          | error fault =>
            rw [rest] at readFirst
            cases readFirst
          | ok tail =>
            rw [rest] at readFirst
            obtain rfl : entry :: tail = first := Except.ok.inj readFirst
            rw [ih.mpr ⟨tail, later, rest, count ▸ readLater, rfl⟩]
            rfl

theorem readLines_refused {lines : List Bytes} {line : Bytes} (member : line ∈ lines) (black : blank line = false)
    (refused : LedgerEntry.ofLine platform line = none) (number : Nat) :
    readLines platform number lines ≠ .ok entries := by
  obtain ⟨before, after, rfl⟩ := List.append_of_mem member
  intro read
  obtain ⟨_, later, _, readLater, _⟩ := readLines_append.mp read
  rw [readLines, black, refused] at readLater
  cases readLater

def Ready (file : Bytes) : Prop := ∀ b ∈ (splitLines file).2, isSpace b = true

instance (file : Bytes) : Decidable (Ready file) := by unfold Ready; infer_instance

def Spoiled (platform : Platform Uuid Time) (file : Bytes) : Prop :=
  ∃ line ∈ (splitLines file).1, blank (stripReturn line) = false ∧ LedgerEntry.ofLine platform (stripReturn line) = none

theorem splitLines_appended (file : Bytes) (entry : LedgerEntry platform) :
    splitLines (file ++ (entry.line ++ [newline])) =
      ((splitLines file).1 ++ [(splitLines file).2 ++ entry.line], []) := by
  have free : LineFree ((splitLines file).2 ++ entry.line) :=
    lineFree_append.mpr ⟨(splitLines_free file).2, entry.line_free⟩
  rw [splitLines_resume, ← List.append_assoc, splitLines_line free]
  rfl

theorem Spoiled.append (spoiled : Spoiled platform file) (more : Bytes) : Spoiled platform (file ++ more) := by
  obtain ⟨line, member, black, refused⟩ := spoiled
  exact ⟨line, by rw [splitLines_resume]; exact List.mem_append_left _ member, black, refused⟩

theorem Spoiled.refused (spoiled : Spoiled platform file) : read platform file ≠ .ok entries := by
  obtain ⟨line, member, black, refused⟩ := spoiled
  exact readLines_refused (List.mem_append_left _ (List.mem_map_of_mem member)) black refused 1

theorem Ready.read_eq (ready : Ready file) :
    read platform file = .ok entries ↔ readLines platform 1 ((splitLines file).1.map stripReturn) = .ok entries := by
  have white : blank (splitLines file).2 = true := blank_white fun b member => isWhite_of_isSpace (ready b member)
  rw [read, textLines, readLines_append]
  constructor
  · rintro ⟨first, later, readFirst, readLater, rfl⟩
    obtain rfl : [] = later := by
      split at readLater
      · exact Except.ok.inj readLater
      · rw [readLines, if_pos white] at readLater
        exact Except.ok.inj readLater
    rw [List.append_nil]
    exact readFirst
  · intro readFirst
    refine ⟨entries, [], readFirst, ?_, by simp⟩
    split
    · rfl
    · rw [readLines, if_pos white]
      rfl

theorem ready_append (file : Bytes) (entry : LedgerEntry platform) : Ready (file ++ (entry.line ++ [newline])) := by
  rw [Ready, splitLines_appended]
  simp

theorem Ready.read_append (ready : Ready file) (before : read platform file = .ok entries) (entry : LedgerEntry platform) :
    read platform (file ++ (entry.line ++ [newline])) = .ok (entries ++ [entry]) := by
  rw [(ready_append file entry).read_eq, splitLines_appended, List.map_append, readLines_append]
  refine ⟨entries, [entry], ready.read_eq.mp before, ?_, rfl⟩
  rw [List.map_singleton, stripReturn_line, readLines, blank_line, LedgerEntry.ofLine_space ready]
  rfl

theorem spoiled_append (unready : ¬Ready file) (entry : LedgerEntry platform) :
    Spoiled platform (file ++ (entry.line ++ [newline])) := by
  have glued : ∃ b ∈ (splitLines file).2, isSpace b = false := by simpa [Ready] using unready
  refine ⟨(splitLines file).2 ++ entry.line, by rw [splitLines_appended]; simp, ?_, ?_⟩
  · rw [stripReturn_line, blank_line]
  · rw [stripReturn_line, entry.ofLine_glued glued]

theorem unready_part (file : Bytes) (entry : LedgerEntry platform) (length : Nat) :
    ¬Ready (file ++ entry.line.take (length + 1)) := by
  obtain ⟨members, line⟩ := entry.line_ends
  have free : LineFree ((splitLines file).2 ++ entry.line.take (length + 1)) :=
    lineFree_append.mpr ⟨(splitLines_free file).2, entry.line_free.cut (List.take_prefix _ _)⟩
  intro ready
  rw [Ready, splitLines_resume, splitLines_tail free] at ready
  exact absurd (ready 123 (by simp [line])) (by decide)

theorem bind_on {α β : Type} (operation : LedgerM α) (next : α → LedgerM β) :
    (operation >>= next).on file =
      match operation.on file with
      | (.ok a, between) => (next a).on between
      | (.error fault, between) => (.error fault, between) := by
  unfold LedgerM.on
  rw [ExceptT.run_bind, StateT.run_bind]
  rcases operation.run.run file with ⟨fault | a, between⟩
  · rfl
  · rfl

theorem bind_ok {α β : Type} {operation : LedgerM α} {next : α → LedgerM β} {b : β} {after : Bytes} :
    (operation >>= next).on file = (.ok b, after) ↔
      ∃ a between, operation.on file = (.ok a, between) ∧ (next a).on between = (.ok b, after) := by
  rw [bind_on]
  rcases operation.on file with ⟨fault | a, between⟩
  · simp
  · simp

theorem bind_after {α β : Type} {operation : LedgerM α} {next : α → LedgerM β} {P : Bytes → Prop}
    (fails : ∀ fault between, operation.on file = (.error fault, between) → P between)
    (goes : ∀ a between, operation.on file = (.ok a, between) → P ((next a).on between).2) :
    P ((operation >>= next).on file).2 := by
  rw [bind_on]
  rcases first : operation.on file with ⟨fault | a, between⟩
  · exact fails fault between first
  · exact goes a between first

theorem pure_after {α β : Type} (operation : LedgerM α) (b : α → β) :
    ((operation >>= fun a => pure (b a)).on file).2 = (operation.on file).2 := by
  rw [bind_on]
  rcases operation.on file with ⟨fault | a, between⟩
  · rfl
  · rfl

theorem lift_after {α β : Type} {result : Except Fault α} {next : α → LedgerM β} {P : Bytes → Prop} (before : P file)
    (goes : ∀ a, result = .ok a → P ((next a).on file).2) : P ((liftM result >>= next).on file).2 := by
  cases result with
  | error fault => exact before
  | ok a => exact goes a rfl

def entryLines (entries : List (LedgerEntry platform)) : Bytes := joinLines (entries.map LedgerEntry.line)

theorem append_on (entry : LedgerEntry platform) (attempt : Attempt) :
    (append entry attempt).on file =
      (if attempt = .done then .ok () else .error .append, file ++ attempt.written entry.line) :=
  rfl

theorem append_ok {entry : LedgerEntry platform} {attempt : Attempt} {after : Bytes}
    (done : (append entry attempt).on file = (.ok (), after)) :
    attempt = .done ∧ after = file ++ (entry.line ++ [newline]) := by
  by_cases finished : attempt = .done
  · subst finished
    exact ⟨rfl, (Prod.mk.inj done).2.symm⟩
  · have result := (Prod.mk.inj ((append_on entry attempt).symm.trans done)).1
    rw [if_neg finished] at result
    cases result

theorem pure_ok {α : Type} {a b : α} {after : Bytes} (done : (pure a : LedgerM α).on file = (.ok b, after)) :
    a = b ∧ file = after := by
  cases done
  exact ⟨rfl, rfl⟩

theorem lift_ok {α : Type} {result : Except Fault α} {a : α} {after : Bytes}
    (done : (liftM result : LedgerM α).on file = (.ok a, after)) : result = .ok a ∧ file = after := by
  cases result with
  | error fault => cases done
  | ok value =>
    cases done
    exact ⟨rfl, rfl⟩

theorem lift_file {α : Type} (result : Except Fault α) : ((liftM result : LedgerM α).on file).2 = file := by
  cases result <;> rfl

theorem appendSettlement_ok {entry : LedgerEntry platform} {first second : Attempt} {after : Bytes}
    (done : (appendSettlement entry first second).on file = (.ok (), after)) :
    (first = .done ∧ after = file ++ (entry.line ++ [newline])) ∨
      first ≠ .done ∧ after = file ++ first.written entry.line ++ (entry.line ++ [newline]) := by
  by_cases finished : first = .done
  · subst finished
    exact Or.inl ⟨rfl, (Prod.mk.inj done).2.symm⟩
  · right
    have tried : (appendSettlement entry first second).on file =
        (if second = .done then .ok () else .error .settlement,
          file ++ first.written entry.line ++ second.written entry.line) := by
      cases first <;> cases second <;> first | rfl | exact absurd rfl finished
    obtain ⟨result, same⟩ := Prod.mk.inj (tried.symm.trans done)
    split at result
    · rename_i again
      subst again
      exact ⟨finished, same.symm⟩
    · cases result

/-- How many lines of its entry a settlement leaves where its first attempt ends so and the last is done. -/
def Attempt.copies : Attempt → Option Nat
  | .done | .nothing => some 1
  | .unsynced => some 2
  | .part _ => none

theorem Attempt.copies_cases {attempt : Attempt} {copies : Nat} (some : attempt.copies = some copies) :
    copies = 1 ∨ copies = 2 := by
  cases attempt <;> simp_all [Attempt.copies]

section

variable {entry : LedgerEntry platform} {first second : Attempt} {after : Bytes}
  (done : (appendSettlement entry first second).on file = (.ok (), after))

include done

theorem settled_read (ready : Ready file) (before : read platform file = .ok entries) {copies : Nat}
    (some : first.copies = some copies) : read platform after = .ok (entries ++ List.replicate copies entry) := by
  have once := ready.read_append before entry
  rcases appendSettlement_ok done with ⟨rfl, rfl⟩ | ⟨unfinished, rfl⟩
  · cases some
    exact once
  · cases first with
    | done => exact absurd rfl unfinished
    | nothing =>
      cases some
      rw [Attempt.written, List.append_nil]
      exact once
    | part length => cases some
    | unsynced =>
      cases some
      have twice := (ready_append file entry).read_append once entry
      simpa [Attempt.written] using twice

theorem settled_torn (torn : first.copies = none) : Spoiled platform after := by
  rcases appendSettlement_ok done with ⟨rfl, rfl⟩ | ⟨unfinished, rfl⟩
  · cases torn
  · cases first with
    | part length => exact spoiled_append (unready_part file entry length) entry
    | _ => cases torn

theorem settled_unready (unready : ¬Ready file) : Spoiled platform after := by
  have once := spoiled_append unready entry
  rcases appendSettlement_ok done with ⟨rfl, rfl⟩ | ⟨unfinished, rfl⟩
  · exact once
  · cases first with
    | done => exact absurd rfl unfinished
    | nothing =>
      rw [Attempt.written, List.append_nil]
      exact once
    | part length => exact spoiled_append (unready_part file entry length) entry
    | unsynced => exact once.append _

theorem settled_spoiled (spoiled : Spoiled platform file) : Spoiled platform after := by
  rcases appendSettlement_ok done with ⟨rfl, rfl⟩ | ⟨unfinished, rfl⟩
  · exact spoiled.append _
  · exact (spoiled.append _).append _

end

theorem releaseEach_ok {now : Time} {sweep : Nat → Uuid × Attempt} {drawn : Nat} {reservations : List (Reserved platform)}
    {swept : List (LedgerEntry platform)} {after : Bytes}
    (done : (releaseEach now sweep drawn reservations entries).on file = (.ok swept, after)) :
    ∃ releases, swept = entries ++ releases ∧ after = file ++ entryLines releases ∧
      ∀ entry ∈ releases, ∃ released reservation, entry = .released released ∧ reservation ∈ reservations ∧
        released.reservedId = reservation.id := by
  induction reservations generalizing drawn entries file with
  | nil =>
    obtain ⟨rfl, rfl⟩ := pure_ok done
    exact ⟨[], by simp [entryLines]⟩
  | cons reservation reservations ih =>
    obtain ⟨_, between, appended, rest⟩ := bind_ok.mp done
    obtain ⟨_, rfl⟩ := append_ok appended
    obtain ⟨releases, rfl, rfl, each⟩ := ih rest
    refine ⟨expiryRelease (sweep drawn).1 now reservation :: releases, by simp, by simp [entryLines], ?_⟩
    intro entry member
    rcases List.mem_cons.mp member with rfl | later
    · exact ⟨_, reservation, rfl, List.mem_cons_self, rfl⟩
    · obtain ⟨released, other, same, listed, id⟩ := each entry later
      exact ⟨released, other, same, List.mem_cons_of_mem _ listed, id⟩

theorem Ready.read_entryLines (ready : Ready file) (before : read platform file = .ok entries)
    (more : List (LedgerEntry platform)) :
    Ready (file ++ entryLines more) ∧ read platform (file ++ entryLines more) = .ok (entries ++ more) := by
  induction more generalizing file entries with
  | nil => simpa [entryLines] using ⟨ready, before⟩
  | cons entry more ih =>
    have rest := ih (ready_append file entry) (ready.read_append before entry)
    simpa [entryLines] using rest

theorem spoiled_entryLines (unready : ¬Ready file) {more : List (LedgerEntry platform)} (some : more ≠ []) :
    Spoiled platform (file ++ entryLines more) := by
  cases more with
  | nil => exact absurd rfl some
  | cons entry more =>
    have spoiled := (spoiled_append unready entry).append (entryLines more)
    simpa [entryLines] using spoiled

variable [DecidableEq Uuid]

def ExpiryRelease (entries : List (LedgerEntry platform)) (now : Time) (entry : LedgerEntry platform) : Prop :=
  ∃ released reservation, entry = .released released ∧ reservation ∈ expired entries now ∧
    released.reservedId = reservation.id

theorem sweepExpired_ok {now : Time} {sweep : Nat → Uuid × Attempt} {swept : List (LedgerEntry platform)} {after : Bytes}
    (done : (sweepExpired platform now sweep).on file = (.ok swept, after)) :
    ∃ entries releases, read platform file = .ok entries ∧ swept = entries ++ releases ∧
      after = file ++ entryLines releases ∧ ∀ entry ∈ releases, ExpiryRelease entries now entry := by
  obtain ⟨_, _, got, rest⟩ := bind_ok.mp done
  cases got
  obtain ⟨entries, _, result, rest⟩ := bind_ok.mp rest
  obtain ⟨read, rfl⟩ := lift_ok result
  obtain ⟨releases, rfl, rfl, each⟩ := releaseEach_ok rest
  exact ⟨entries, releases, read, rfl, rfl, each⟩

end

end CommonMeasure.Allowance
