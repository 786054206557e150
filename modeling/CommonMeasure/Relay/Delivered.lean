import CommonMeasure.Foundation.Runs
import CommonMeasure.Foundation.Uuid

/-!
# The index of delivered events

`record_delivered` appends a line for each acknowledged id and `delivered` reads the lines that are ids.
-/

namespace CommonMeasure.Relay

section

variable {Uuid : Type} (format : UuidText Uuid)

def trim (line : Bytes) : Bytes := ((line.dropWhile isWhite).reverse.dropWhile isWhite).reverse

def delivered : Option Bytes → List Uuid
  | none => []
  | some text => (textLines text).filterMap fun line => (fromUtf8 (trim line)).bind format.parse

/-- How far a call gets: all of its bytes and their sync, some of its bytes, or not even to open the file. -/
inductive Append where
  | whole
  | cut (length : Nat)
  | refused
  deriving DecidableEq

def idLines (ids : List Uuid) : Bytes := joinLines (ids.map fun id => utf8 (format.text id))

/-- The file after the call, and whether it returned `Ok`. -/
def recordDelivered (file : Option Bytes) (ids : List Uuid) : Append → Option Bytes × Bool
  | .whole => (some (file.getD [] ++ idLines format ids), true)
  | .cut length => (some (file.getD [] ++ (idLines format ids).take length), false)
  | .refused => (file, false)

structure Call (Uuid : Type) where
  ids : List Uuid
  append : Append

structure Index (Uuid : Type) where
  file : Option Bytes
  /-- The ids passed to a call that returned `Ok`. -/
  acknowledged : List Uuid

def Index.absent : Index Uuid := ⟨none, []⟩

def step (index : Index Uuid) (call : Call Uuid) : Index Uuid :=
  let (file, ok) := recordDelivered format index.file call.ids call.append
  ⟨file, if ok then index.acknowledged ++ call.ids else index.acknowledged⟩

def run (index : Index Uuid) (calls : List (Call Uuid)) : Index Uuid := runWith (step format) index calls

def Aligned (index : Index Uuid) (call : Call Uuid) : Prop :=
  call.append = .whole → call.ids ≠ [] → Terminated (index.file.getD [])

def RunAligned (index : Index Uuid) (calls : List (Call Uuid)) : Prop := AlongRun (step format) Aligned index calls

section

variable {Event : Type} [DecidableEq Uuid] (id : Event → Uuid)

def enqueueNew (already : List Uuid) : List (List Event) → List (List Event)
  | [] => []
  | batch :: batches =>
    let events := batch.filter fun event => id event ∉ already
    if events.isEmpty then enqueueNew already batches
    else events :: enqueueNew (already ++ events.map id) batches

theorem enqueueNew_fresh {already : List Uuid} {batches : List (List Event)} {batch : List Event} {event : Event}
    (enqueued : batch ∈ enqueueNew id already batches) (member : event ∈ batch) : id event ∉ already := by
  induction batches generalizing already with
  | nil => cases enqueued
  | cons first batches ih =>
    unfold enqueueNew at enqueued
    dsimp only at enqueued
    split at enqueued
    · exact ih enqueued
    · rcases List.mem_cons.mp enqueued with rfl | later
      · simpa using (List.mem_filter.mp member).2
      · exact fun before => ih later (List.mem_append_left _ before)

end

def Listed (file : Bytes) (id : Uuid) : Prop :=
  ∃ before after, file = before ++ utf8 (format.text id) ++ newline :: after ∧ Terminated before

variable {format}

theorem Listed.append {file : Bytes} {id : Uuid} (listed : Listed format file id) (more : Bytes) :
    Listed format (file ++ more) id := by
  obtain ⟨before, after, rfl, start⟩ := listed
  exact ⟨before, after ++ more, by simp, start⟩

theorem dropWhile_visible {line : Bytes} (visible : ∀ b ∈ line, Visible b) : line.dropWhile isWhite = line := by
  cases line with
  | nil => rfl
  | cons b line =>
    have above : 33 ≤ b.toNat := UInt8.le_iff_toNat_le.mp (visible b List.mem_cons_self).1
    rw [List.dropWhile_cons_of_neg]
    simp only [isWhite, decide_eq_true_eq, ← UInt8.toNat_inj, UInt8.le_iff_toNat_le]
    simp
    omega

theorem trim_visible {line : Bytes} (visible : ∀ b ∈ line, Visible b) : trim line = line := by
  have reversed : ∀ b ∈ line.reverse, Visible b := fun b member => visible b (List.mem_reverse.mp member)
  rw [trim, dropWhile_visible visible, dropWhile_visible reversed, List.reverse_reverse]

theorem stripReturn_visible {line : Bytes} (visible : ∀ b ∈ line, Visible b) : stripReturn line = line := by
  apply if_neg
  intro last
  exact absurd (visible _ (List.mem_of_getLast? last)).1 (by decide)

theorem Listed.delivered {file : Bytes} {id : Uuid} (listed : Listed format file id) :
    id ∈ delivered format (some file) := by
  obtain ⟨before, after, rfl, start⟩ := listed
  have visible := format.text_visible id
  have lines : splitLines (before ++ utf8 (format.text id) ++ newline :: after) =
      ((splitLines before).1 ++ utf8 (format.text id) :: (splitLines after).1, (splitLines after).2) := by
    rw [splitLines_break]
    conv_lhs => rw [← start.eq_joinLines]
    rw [splitLines_join (splitLines_free before).1 (Visible.lineFree visible)]
  apply List.mem_filterMap.mpr
  refine ⟨utf8 (format.text id), ?_, by rw [trim_visible visible, fromUtf8_utf8, Option.bind_some, format.parse_text]⟩
  rw [textLines, lines]
  apply List.mem_append_left
  exact List.mem_map.mpr ⟨utf8 (format.text id), by simp, stripReturn_visible visible⟩

theorem idLines_listed {file : Bytes} (start : Terminated file) {ids : List Uuid} {id : Uuid} (member : id ∈ ids) :
    Listed format (file ++ idLines format ids) id := by
  obtain ⟨earlier, later, rfl⟩ := List.append_of_mem member
  refine ⟨file ++ idLines format earlier, idLines format later, by simp [idLines], ?_⟩
  have free : ∀ line ∈ earlier.map fun id => utf8 (format.text id), LineFree line := by
    intro line written
    obtain ⟨id, _, rfl⟩ := List.mem_map.mp written
    exact Visible.lineFree (format.text_visible id)
  rw [idLines, ← start.eq_joinLines, ← joinLines_append]
  exact terminated_joinLines (by simpa [or_imp, forall_and] using ⟨(splitLines_free file).1, by simpa using free⟩)

def Kept (format : UuidText Uuid) (index : Index Uuid) : Prop :=
  ∀ id ∈ index.acknowledged, Listed format (index.file.getD []) id

theorem step_kept {index : Index Uuid} (kept : Kept format index) {call : Call Uuid} (aligned : Aligned index call) :
    Kept format (step format index call) := by
  intro id member
  unfold step recordDelivered at member ⊢
  cases append : call.append with
  | whole =>
    rw [append] at member
    rcases List.mem_append.mp member with before | now
    · exact (kept id before).append _
    · exact idLines_listed (aligned append (List.ne_nil_of_mem now)) now
  | cut length =>
    rw [append] at member
    exact (kept id member).append _
  | refused =>
    rw [append] at member
    exact kept id member

/-- Where each call that completes begins at the start of a line, every acknowledged id is delivered, and no relay
run enqueues its event as new. -/
theorem acknowledged_delivered [DecidableEq Uuid] {calls : List (Call Uuid)}
    (aligned : RunAligned format Index.absent calls) :
    ∀ id ∈ (run format Index.absent calls).acknowledged,
      id ∈ delivered format (run format Index.absent calls).file ∧
      ∀ {Event : Type} (eventId : Event → Uuid) (pending : List Uuid) (batches : List (List Event)),
        ∀ batch ∈ enqueueNew eventId (delivered format (run format Index.absent calls).file ++ pending) batches,
          ∀ event ∈ batch, eventId event ≠ id := by
  have kept : Kept format (run format Index.absent calls) :=
    runWith_keeps (I := Kept format) (fun _ _ held aligned => step_kept held aligned) (fun _ member => by cases member)
      aligned
  intro id member
  have listed : id ∈ delivered format (run format Index.absent calls).file := by
    have read := (kept id member).delivered
    cases file : (run format Index.absent calls).file with
    | none => rwa [file] at read
    | some text => rwa [file] at read
  refine ⟨listed, ?_⟩
  intro Event eventId pending batches batch enqueued event inside same
  exact enqueueNew_fresh eventId enqueued inside (List.mem_append_left pending (same ▸ listed))

end

theorem repeated_length (digit : Fin 16) : (List.replicate 32 digit).length = 32 := List.length_replicate

def repeated (digit : Fin 16) : Hyphenated := ⟨List.replicate 32 digit, repeated_length digit⟩

def synced : List (Call Hyphenated) :=
  [⟨[repeated 1, repeated 2], .whole⟩, ⟨[repeated 3], .cut 37⟩, ⟨[repeated 4], .whole⟩]

theorem acknowledged_delivered_synced :
    repeated 1 ∈ delivered hyphenated (run hyphenated Index.absent synced).file ∧
      repeated 2 ∈ delivered hyphenated (run hyphenated Index.absent synced).file ∧
      repeated 4 ∈ delivered hyphenated (run hyphenated Index.absent synced).file := by
  have aligned : RunAligned hyphenated Index.absent synced := by
    refine ⟨?_, ?_, ?_, trivial⟩ <;> intro _ _ <;> decide
  have told (id) (member : id ∈ (run hyphenated Index.absent synced).acknowledged) :=
    (acknowledged_delivered aligned id member).1
  exact ⟨told _ (by decide), told _ (by decide), told _ (by decide)⟩

def glued : List (Call Hyphenated) := [⟨[repeated 1], .cut 8⟩, ⟨[repeated 2], .whole⟩]

theorem acknowledged_lost_glued :
    repeated 2 ∈ (run hyphenated Index.absent glued).acknowledged ∧
      repeated 2 ∉ delivered hyphenated (run hyphenated Index.absent glued).file ∧
      enqueueNew id (delivered hyphenated (run hyphenated Index.absent glued).file) [[repeated 2]] = [[repeated 2]] := by
  decide

end CommonMeasure.Relay
