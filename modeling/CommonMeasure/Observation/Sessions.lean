import CommonMeasure.Json.Compact
import CommonMeasure.Observation.CatchUp

namespace CommonMeasure.Observation

open Json Evidence

section

variable {ι : Type*} {canonicalUuid : String → Bool} {J : Reader} (digest : Bytes → String)

def Session.start : Session ι canonicalUuid := ⟨[], [], fun _ => ⟨Index.reset digest, none, false⟩⟩

def Session.Level (session : Session ι canonicalUuid) : Act ι J → Prop
  | .catchesUp i stop _ =>
    (session.processes i).writing = none → ¬(session.processes i).index.Ahead J digest (logOf session.records) stop
  | .grows _ _ | .loads _ _ | .writes _ _ => True

instance (session : Session ι canonicalUuid) : DecidablePred (session.Level (J := J) digest)
  | .catchesUp _ _ _ => inferInstanceAs (Decidable (_ → _))
  | .grows _ _ | .loads _ _ | .writes _ _ => .isTrue trivial

def Facts.Same (facts other : Facts canonicalUuid) : Prop := ∀ atom, facts.Knows atom ↔ other.Knows atom

theorem Facts.Same.acquisition {facts other : Facts canonicalUuid} (same : facts.Same other) (id : String) :
    id ∈ facts.acquisitions ↔ id ∈ other.acquisitions := same (.acquisition id)

def rebuilt (J : Reader) (log : Bytes) : Facts canonicalUuid :=
  ((Index.reset digest).catchUp J digest log .never ⟨id, fun _ => .refl _⟩).1.facts

structure Session.Exact (J : Reader) (session : Session ι canonicalUuid) : Prop where
  caughtUp : ∀ i, (session.processes i).returned = true →
    (session.processes i).index.facts.Same
      (rebuilt digest J ((logOf session.records).take (session.processes i).index.offset))
  loaded : ∀ opened, let index : Index canonicalUuid := Index.load J digest (journalRead session.journals opened)
    index.facts.Same (rebuilt digest J ((logOf session.records).take index.offset))

theorem logOf_append (records more : List Value) : logOf (records ++ more) = logOf records ++ logOf more := by
  simp [logOf]

section

variable {records : List Value}

theorem splitLines_logOf : splitLines (logOf records) = (records.map write, []) := by
  have free : ∀ line ∈ records.map write, LineFree line := by
    intro line listed
    obtain ⟨record, _, rfl⟩ := List.mem_map.mp listed
    exact write_lineFree record
  have joined := splitLines_join free lineFree_nil
  rwa [List.append_nil] at joined

theorem begins_logOf {lines : List Bytes} : Begins (logOf records) lines ↔ ∃ part, part <+: records ∧
    lines = part.map write := by
  unfold Begins
  rw [splitLines_logOf, List.prefix_map_iff]

variable {index : Index canonicalUuid}

theorem whole_scanned (whole : ∀ record ∈ records, Evidence.Entry J record) {lines : List Bytes}
    (begins : Begins (logOf records) lines) (offset : index.offset = (joinLines lines).length) :
    (index.scanned J (logOf records)).fault = none := by
  have settled : Settled J (records.map write) records := by simpa using settled_entries Settled.nil whole
  have readable : Evidence.read J (logOf records) = .ok records := by
    rw [read_ok_iff, Terminated, splitLines_logOf]
    exact ⟨rfl, settled⟩
  exact readable_scanned readable begins offset

theorem rebuilt_knows (whole : ∀ record ∈ records, Evidence.Entry J record) {atom : Atom} :
    (rebuilt digest J (logOf records) : Facts canonicalUuid).Knows atom ↔ Known J canonicalUuid (records.map write) atom := by
  have same : (Index.reset digest : Index canonicalUuid).checked digest (logOf records) = Index.reset digest := by
    rcases checked_cases digest (Index.reset digest) (logOf records) with anew | same
    · exact anew
    · exact same
  have begins : Begins (logOf records) [] := List.nil_prefix
  obtain ⟨range, _, _, passed, finished⟩ :=
    @scanned_placed J (logOf records) [] canonicalUuid (Index.reset digest) begins rfl
  obtain ⟨_, all⟩ := finished (whole_scanned whole begins rfl)
  obtain rfl : range = records.map write := by simpa [splitLines_logOf] using all
  have held : rebuilt digest J (logOf records) =
      ((default : Facts canonicalUuid).observeAll (placed J 0 (records.map write))).1 := by
    rw [show placed J 0 (records.map write) = _ from passed.symm]
    unfold rebuilt Index.catchUp
    dsimp only
    rw [same]
    split <;> rfl
  rw [held, knows_observeAll, knows_default, false_or]
  rfl

end

structure Process.Sound (J : Reader) (log : Bytes) (process : Process canonicalUuid) : Prop where
  index : process.index.Sound J log
  writing : ∀ entry outcome, process.writing = some (entry, outcome) →
    entry.Correct J canonicalUuid log ∧ Observation.Exact J log process.index.offset process.index.facts
  returned : process.returned = true → Observation.Exact J log process.index.offset process.index.facts

structure Session.Sound (J : Reader) (session : Session ι canonicalUuid) : Prop where
  whole : ∀ record ∈ session.records, Evidence.Entry J record
  bounded : (logOf session.records).length < maxFile
  journals : ∀ file ∈ session.journals, Holds J (Entry.Correct J canonicalUuid (logOf session.records)) file
  processes : ∀ i, (session.processes i).Sound J (logOf session.records)

variable {digest} {session : Session ι canonicalUuid} {log grown : Bytes}

theorem idle_sound {index : Index canonicalUuid} {returned : Bool} (sound : index.Sound J log)
    (exact : returned = true → Observation.Exact J log index.offset index.facts) :
    Process.Sound J log ⟨index, none, returned⟩ where
  index := sound
  writing _ _ impossible := nomatch impossible
  returned := exact

theorem start_sound : (Session.start digest : Session ι canonicalUuid).Sound J where
  whole record listed := by cases listed
  bounded := by simp [Session.start, logOf, maxFile]
  journals file listed := by cases listed
  processes i := idle_sound (Index.sound_of_exact small_default (reset_exact J digest _)) (nomatch ·)

theorem Process.Sound.mono {process : Process canonicalUuid} (sound : process.Sound J log) (growth : log <+: grown) :
    process.Sound J grown where
  index := sound.index.mono growth
  writing entry outcome is := (sound.writing entry outcome is).imp (·.mono growth) (·.mono growth)
  returned done := (sound.returned done).mono growth

theorem load_exact (sound : session.Sound J) (opened : Option (Nat × Nat)) :
    let index : Index canonicalUuid := Index.load J digest (journalRead session.journals opened)
    index.facts.Small ∧ Observation.Exact J (logOf session.records) index.offset index.facts :=
  loaded_exact sound.journals digest opened

theorem exact_same (sound : session.Sound J) {offset : Nat} {facts : Facts canonicalUuid}
    (exact : Observation.Exact J (logOf session.records) offset facts) :
    facts.Same (rebuilt digest J ((logOf session.records).take offset)) := by
  obtain ⟨lines, begins, rfl, knows⟩ := exact
  obtain ⟨part, ⟨rest, split⟩, rfl⟩ := begins_logOf.mp begins
  have whole : ∀ record ∈ part, Evidence.Entry J record := by
    intro record listed
    exact sound.whole record (split ▸ List.mem_append_left _ listed)
  have cut : (logOf session.records).take (joinLines (part.map write)).length = logOf part := by
    rw [← split, logOf_append]
    exact List.take_left
  intro atom
  rw [cut, rebuilt_knows digest whole, knows]

variable [DecidableEq ι]

theorem set_sound (sound : session.Sound J) (i : ι) {process : Process canonicalUuid}
    (is : process.Sound J (logOf session.records)) : (session.set i process).Sound J where
  whole := sound.whole
  bounded := sound.bounded
  journals := sound.journals
  processes j := by
    by_cases same : j = i
    · subst same
      simpa [Session.set] using is
    · simpa [Session.set, same] using sound.processes j

theorem grows_sound (sound : session.Sound J) {record : Value} (whole : Evidence.Entry J record) :
    (session.step digest (.grows record whole)).Sound J := by
  unfold Session.step
  dsimp only
  split
  · rename_i room
    have growth : logOf session.records <+: logOf (session.records ++ [record]) := by
      rw [logOf_append]
      exact List.prefix_append _ _
    refine ⟨?_, room, ?_, fun i => (sound.processes i).mono growth⟩
    · intro other listed
      rcases List.mem_append.mp listed with before | new
      · exact sound.whole other before
      · rw [List.mem_singleton.mp new]
        exact whole
    · intro file listed
      exact (sound.journals file listed).mono fun entry correct => correct.mono growth
  · exact sound

theorem loads_sound (sound : session.Sound J) (i : ι) (opened : Option (Nat × Nat)) :
    (session.step digest (.loads i opened : Act ι J)).Sound J := by
  obtain ⟨small, exact⟩ := @load_exact _ _ _ digest _ sound opened
  exact set_sound sound i (idle_sound (Index.sound_of_exact small exact) (nomatch ·))

theorem catchesUp_sound (sound : session.Sound J) {i : ι} {stop : Stop} {order : Order}
    (level : session.Level digest (.catchesUp i stop order : Act ι J)) :
    (session.step digest (.catchesUp i stop order : Act ι J)).Sound J := by
  unfold Session.step
  dsimp only
  split
  · exact sound
  · rename_i idle
    have process := sound.processes i
    have checked : ((session.processes i).index.checked digest (logOf session.records)).Sound J (logOf session.records) :=
      process.index.checked
    obtain ⟨before, begins, offset, _⟩ := checked.behind
    have steady : ((session.processes i).index.checked digest (logOf session.records)).Steady J (logOf session.records) :=
      Or.inr (whole_scanned sound.whole begins offset)
    split
    · rename_i index entry outcome caught
      obtain ⟨kept, correct, exact⟩ := process.index.catchUp sound.bounded steady (level idle) caught
      apply set_sound sound
      refine ⟨kept, ?_, fun impossible => by cases impossible⟩
      intro written answer is
      obtain ⟨rfl, rfl⟩ := Prod.mk.inj (Option.some.inj is)
      exact ⟨correct entry rfl, exact (Or.inr (Or.inl rfl))⟩
    · rename_i index outcome caught
      obtain ⟨kept, _, exact⟩ := process.index.catchUp sound.bounded steady (level idle) caught
      exact set_sound sound i (idle_sound kept fun done => exact (Or.inr (Or.inr done)))

theorem writes_sound (sound : session.Sound J) (i : ι) (wrote : Wrote) :
    (session.step digest (.writes i wrote : Act ι J)).Sound J := by
  unfold Session.step
  dsimp only
  split
  · rename_i index entry outcome returned is
    have process := sound.processes i
    rw [is] at process
    obtain ⟨correct, exact⟩ := process.writing entry outcome rfl
    let after : Index canonicalUuid :=
      { index with rewrite := !(writeJournal index.rewrite entry wrote session.journals).2 }
    have kept : after.Sound J (logOf session.records) := Index.sound_of_exact process.index.small exact
    have next := set_sound sound i (@idle_sound canonicalUuid J _ after outcome kept fun _ => exact)
    exact ⟨next.whole, next.bounded, writeJournal_holds sound.journals correct index.rewrite wrote, next.processes⟩
  · exact sound

theorem step_sound {act : Act ι J} (sound : session.Sound J) (level : session.Level digest act) :
    (session.step digest act).Sound J := by
  cases act with
  | grows record whole => exact grows_sound sound whole
  | loads i opened => exact loads_sound sound i opened
  | catchesUp i stop order => exact catchesUp_sound sound level
  | writes i wrote => exact writes_sound sound i wrote

/-- Whatever processes load, catch up and write, in any order and failing anywhere. -/
theorem index_exact {acts : List (Act ι J)} (level : AlongRun (Session.step digest) (Session.Level digest)
      (Session.start digest : Session ι canonicalUuid) acts) :
    (runWith (Session.step digest) (Session.start digest : Session ι canonicalUuid) acts).Exact digest J := by
  have sound := runWith_keeps (I := Session.Sound J) (fun _ _ sound level => step_sound sound level) start_sound level
  constructor
  · intro i returned
    exact exact_same sound ((sound.processes i).returned returned)
  · intro opened
    exact exact_same sound (load_exact sound opened).2

end

def issued (id : String) : Value :=
  record 1 "2026-09-29T10:00:00.000Z" "crossing_mediated" (.object [("acquisition_id", .string id)])

theorem issued_entry (id : String) : Evidence.Entry compactReader (issued id) := by
  apply record_entry (by decide)
  · apply compactReader.holds_object
    · simp
    · simp [compactReader.holds_string]
  · simp [Value.depth, depthMembers, recursionLimit]

def inOrder : Order := ⟨id, fun _ => .refl _⟩

def twoProcesses : Session Bool (fun _ => false) := Session.start spelled

/-- The first process stops short after a crossing while its journal is still to be written whole, and the second
resumes from what it writes. -/
def resumed : List (Act Bool compactReader) :=
  [.grows (issued "first") (issued_entry _), .catchesUp false (.scans 1) inOrder, .catchesUp false .never inOrder,
    .writes false (.whole 0), .loads true (some (0, 4096)), .catchesUp true .never inOrder]

theorem index_exact_resumed : (runWith (Session.step spelled) twoProcesses resumed).Exact spelled compactReader :=
  index_exact (by decide +kernel)

/-- The first process has written its journal when it stops short after a second crossing, and catches up. -/
def overtaken : List (Act Bool compactReader) :=
  [.grows (issued "first") (issued_entry _), .catchesUp false .never inOrder, .writes false (.whole 0),
    .grows (issued "second") (issued_entry _), .catchesUp false (.scans 1) inOrder, .catchesUp false .never inOrder,
    .writes false (.whole 0), .loads true (some (0, 4096)), .catchesUp true .never inOrder]

/-- The second process then never hears of the second crossing. -/
theorem index_overtaken : Function.Injective spelled ∧ ¬∀ acts : List (Act Bool compactReader),
    (runWith (Session.step spelled) twoProcesses acts).Exact spelled compactReader := by
  refine ⟨spelled_injective, ?_⟩
  intro exact
  have caughtUp := (exact overtaken).caughtUp true
  revert caughtUp
  generalize reached : runWith (Session.step spelled) twoProcesses overtaken = session
  intro caughtUp
  obtain ⟨returned, lacks, built⟩ : (session.processes true).returned = true ∧
      ((session.processes true).index.facts.acquisitions.lookup "second").isSome = false ∧
      ((rebuilt spelled compactReader ((logOf session.records).take (session.processes true).index.offset) :
        Facts fun _ => false).acquisitions.lookup "second").isSome = true := by
    subst reached
    decide +kernel
  have same := (caughtUp returned).acquisition "second"
  rw [← AList.lookup_isSome, ← AList.lookup_isSome, lacks] at same
  exact Bool.false_ne_true (same.mpr built)

end CommonMeasure.Observation
