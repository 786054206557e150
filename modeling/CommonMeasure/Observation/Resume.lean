import CommonMeasure.Observation.Placed

namespace CommonMeasure.Observation

open Json Evidence

def Entry.Correct (J : Reader) (canonicalUuid : String → Bool) (log : Bytes) (entry : Entry) : Prop :=
  entry.Plain ∧ ∃ before range, Begins log (before ++ range) ∧ entry.from_ = (joinLines before).length ∧
    entry.through = (joinLines (before ++ range)).length ∧
    (∀ atom, Known J canonicalUuid (before ++ range) atom →
      Known J canonicalUuid before atom ∨ Tells canonicalUuid entry.facts atom) ∧
    ∀ atom, Tells canonicalUuid entry.facts atom → Known J canonicalUuid (before ++ range) atom

def Exact (J : Reader) {canonicalUuid : String → Bool} (log : Bytes) (offset : Nat) (facts : Facts canonicalUuid) : Prop :=
  ∃ lines, Begins log lines ∧ offset = (joinLines lines).length ∧ ∀ atom, facts.Knows atom ↔ Known J canonicalUuid lines atom

section

variable {J : Reader} {canonicalUuid : String → Bool} {log grown : Bytes} {atom : Atom}

theorem Entry.Correct.mono {entry : Entry} (correct : entry.Correct J canonicalUuid log) (growth : log <+: grown) :
    entry.Correct J canonicalUuid grown := by
  obtain ⟨plain, before, range, covered, rest⟩ := correct
  exact ⟨plain, before, range, covered.mono growth, rest⟩

theorem Exact.mono {offset : Nat} {facts : Facts canonicalUuid} (exact : Exact J log offset facts) (growth : log <+: grown) :
    Exact J grown offset facts := by
  obtain ⟨lines, begins, rest⟩ := exact
  exact ⟨lines, begins.mono growth, rest⟩

theorem exact_default (J : Reader) (log : Bytes) : Exact J log 0 (default : Facts canonicalUuid) := by
  refine ⟨[], List.nil_prefix, rfl, ?_⟩
  intro atom
  rw [knows_default]
  simp [Known, placed, Establishes]

theorem Account.take_exact {account next : Account canonicalUuid} {entry : Entry}
    (exact : Exact J log account.offset account.facts) (correct : entry.Correct J canonicalUuid log)
    (taken : account.take entry = some next) : Exact J log next.offset next.facts := by
  obtain ⟨held, heldFirst, offset, knows⟩ := exact
  obtain ⟨plain, before, range, covered, from_, through, adds, sound⟩ := correct
  have startsFirst : Begins log before := (List.prefix_append before range).trans covered
  have told (atom) : (account.facts.applyAll entry.facts).1.Knows atom ↔
      Known J canonicalUuid held atom ∨ Tells canonicalUuid entry.facts atom := by rw [knows_applyAll, knows]
  unfold Account.take at taken
  split at taken
  · cases taken
  rename_i continues
  have reaches : before <+: held := by
    apply startsFirst.prefix_of_length heldFirst
    omega
  by_cases further : account.offset < entry.through
  · rw [if_pos (Or.inl further)] at taken
    obtain rfl := Option.some.inj taken
    have contains : held <+: before ++ range := by
      apply heldFirst.prefix_of_length covered
      omega
    refine ⟨before ++ range, covered, (max_eq_left further.le).trans through, ?_⟩
    intro atom
    rw [told]
    constructor
    · rintro (known | tells)
      · exact known.mono contains
      · exact sound atom tells
    · intro known
      exact (adds atom known).imp_left fun known => known.mono reaches
  · have contains : before ++ range <+: held := by
      apply covered.prefix_of_length heldFirst
      omega
    have same (atom) : (account.facts.applyAll entry.facts).1.Knows atom ↔ Known J canonicalUuid held atom := by
      rw [told]
      exact ⟨fun either => either.elim id fun tells => (sound atom tells).mono contains, Or.inl⟩
    split at taken
    · obtain rfl := Option.some.inj taken
      exact ⟨held, heldFirst, (max_eq_right (not_lt.mp further)).trans offset, same⟩
    · obtain rfl := Option.some.inj taken
      exact ⟨held, heldFirst, offset, same⟩

theorem readJournal_exact {file : Bytes} (holds : Holds J (Entry.Correct J canonicalUuid log) file) {bytes : Nat}
    {account : Account canonicalUuid} (usable : readJournal J canonicalUuid (file.take bytes) = some account) :
    account.facts.Small ∧ Exact J log account.offset account.facts := by
  have start : (default : Account canonicalUuid).facts.Small ∧
      Exact J log (default : Account canonicalUuid).offset (default : Account canonicalUuid).facts :=
    ⟨small_default, exact_default J log⟩
  refine @Holds.read_keeps J (Entry.Correct J canonicalUuid log) file canonicalUuid
    (fun account => account.facts.Small ∧ Exact J log account.offset account.facts) holds (fun entry correct => correct.1)
    ?_ start bytes account usable
  intro account next entry kept correct taken
  exact ⟨Account.take_small kept.1 correct.1 taken, Account.take_exact kept.2 correct taken⟩

theorem loaded_exact {journals : List Bytes} (holds : ∀ file ∈ journals, Holds J (Entry.Correct J canonicalUuid log) file)
    (digest : Bytes → String) (opened : Option (Nat × Nat)) :
    let index : Index canonicalUuid := Index.load J digest (journalRead journals opened)
    index.facts.Small ∧ Exact J log index.offset index.facts := by
  unfold Index.load
  dsimp only
  split
  · rename_i account read
    obtain ⟨bytes, open_, usable⟩ := Option.bind_eq_some_iff.mp read
    obtain ⟨at_, _, found⟩ := Option.bind_eq_some_iff.mp open_
    obtain ⟨file, listed, rfl⟩ := Option.map_eq_some_iff.mp found
    exact readJournal_exact (holds file (List.mem_of_getElem? listed)) usable
  · exact ⟨small_default, exact_default J _⟩

theorem writeJournal_holds {kind : Entry → Prop} {journals : List Bytes} (holds : ∀ file ∈ journals, Holds J kind file)
    {entry : Entry} (is : kind entry) (rewrite : Bool) (wrote : Wrote) :
    ∀ file ∈ (writeJournal rewrite entry wrote journals).1, Holds J kind file := by
  have modified (at_ : Nat) (added : Bytes) (keeps : ∀ file, Holds J kind file → Holds J kind (file ++ added)) :
      ∀ file ∈ journals.modify at_ (· ++ added), Holds J kind file := by
    intro file listed
    obtain ⟨n, found⟩ := List.mem_iff_getElem?.mp listed
    rw [List.getElem?_modify] at found
    obtain ⟨before, held, rfl⟩ := Option.map_eq_some_iff.mp found
    have kept := holds before (List.mem_of_getElem? held)
    split
    · exact keeps before kept
    · exact kept
  cases rewrite with
  | true =>
    cases wrote with
    | whole file =>
      intro file listed
      rcases List.mem_cons.mp listed with rfl | old
      · exact holds_nil.append is
      · exact holds file old
    | cut file bytes => exact holds
  | false =>
    cases wrote with
    | whole file => exact modified file _ fun _ kept => kept.append is
    | cut file bytes => exact modified file _ fun _ kept => kept.take is bytes

end

end CommonMeasure.Observation
