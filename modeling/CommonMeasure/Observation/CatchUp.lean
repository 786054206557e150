import CommonMeasure.Observation.Resume

namespace CommonMeasure.Observation

open Json Evidence

section

variable {J : Reader} {canonicalUuid : String → Bool} {log grown : Bytes} {atom : Atom}

/-- An index that knows what the log establishes before its offset, and nothing the log does not; where the journal
is to go on from it, nothing further than its offset. -/
structure Index.Sound (J : Reader) (log : Bytes) (index : Index canonicalUuid) : Prop where
  small : index.facts.Small
  behind : ∃ before, Begins log before ∧ index.offset = (joinLines before).length ∧
    (∀ atom, Known J canonicalUuid before atom → index.facts.Knows atom) ∧
    (∀ atom, index.facts.Knows atom → Known J canonicalUuid (splitLines log).1 atom) ∧
    (index.rewrite = false → ∀ atom, index.facts.Knows atom → Known J canonicalUuid before atom)

theorem Index.Sound.mono {index : Index canonicalUuid} (sound : index.Sound J log) (growth : log <+: grown) :
    index.Sound J grown := by
  obtain ⟨small, before, begins, offset, knows, established, journalled⟩ := sound
  exact ⟨small, before, begins.mono growth, offset, knows, fun atom known => (established atom known).mono (splitLines_cut growth),
    journalled⟩

theorem Index.sound_of_exact {index : Index canonicalUuid} (small : index.facts.Small)
    (exact : Exact J log index.offset index.facts) : index.Sound J log := by
  obtain ⟨before, begins, offset, knows⟩ := exact
  exact ⟨small, before, begins, offset, fun atom => (knows atom).mpr, fun atom known => ((knows atom).mp known).mono begins,
    fun _ atom => (knows atom).mp⟩

variable {digest : Bytes → String}

theorem reset_exact (J : Reader) (digest : Bytes → String) (log : Bytes) :
    Exact J log (Index.reset digest : Index canonicalUuid).offset (Index.reset digest : Index canonicalUuid).facts :=
  exact_default J log

theorem checked_cases (digest : Bytes → String) (index : Index canonicalUuid) (log : Bytes) :
    index.checked digest log = Index.reset digest ∨ index.checked digest log = index := by
  unfold Index.checked
  split
  · exact Or.inl rfl
  · exact Or.inr rfl

theorem Index.Sound.checked {index : Index canonicalUuid} (sound : index.Sound J log) :
    (index.checked digest log).Sound J log := by
  rcases checked_cases digest index log with anew | same
  · rw [anew]
    exact Index.sound_of_exact small_default (reset_exact J digest log)
  · rw [same]
    exact sound

theorem recordFacts_small {record : Value} {at_ : Nat} (fits : at_ < 2 ^ 64) : ∀ fact ∈ recordFacts record at_, fact.Small := by
  intro fact listed
  unfold recordFacts at listed
  dsimp only at listed
  split at listed
  · rcases List.mem_cons.mp listed with rfl | issued
    · trivial
    · obtain ⟨id, _, rfl⟩ := Option.map_eq_some_iff.mp (Option.mem_toList.mp issued)
      trivial
  · rw [List.mem_singleton.mp listed]
    trivial
  · split at listed
    · rw [List.mem_singleton.mp listed]
      trivial
    · cases listed
  · split at listed
    · rw [List.mem_singleton.mp listed]
      exact fits
    · cases listed
  · obtain ⟨turn, _, rfl⟩ := List.mem_map.mp listed
    trivial
  · obtain ⟨id, _, rfl⟩ := List.mem_map.mp listed
    trivial
  · cases listed

def Index.learns (J : Reader) (index : Index canonicalUuid) (log : Bytes) (passed : Nat) : List Fact :=
  (index.facts.observeAll ((index.scanned J log).records.take passed)).2

/-- The index's scan ends with an error after it was passed records that tell it something, and its journal is not to
be written whole. -/
def Index.Ahead (J : Reader) (digest : Bytes → String) (index : Index canonicalUuid) (log : Bytes) : Stop → Prop
  | .scans passed => (index.checked digest log).rewrite = false ∧ (index.checked digest log).learns J log passed ≠ []
  | .never | .opens | .checks | .digests => False

instance (J : Reader) (digest : Bytes → String) (index : Index canonicalUuid) (log : Bytes) :
    DecidablePred (index.Ahead J digest log)
  | .scans _ => inferInstanceAs (Decidable (_ ∧ _))
  | .never | .opens | .checks | .digests => .isFalse id

variable {index : Index canonicalUuid} {before range : List Bytes}

theorem facts_small (begins : Begins log (before ++ range)) (bounded : log.length < maxFile) :
    ∀ record ∈ placed J (joinLines before).length range, ∀ fact ∈ recordFacts record.1 record.2, fact.Small := by
  intro record listed fact made
  have within := begins.length
  rw [joinLines_append, List.length_append] at within
  unfold maxFile at bounded
  exact recordFacts_small (placed_before (show _ ≤ 2 ^ 64 by omega) record listed) fact made

theorem observed_small (begins : Begins log (before ++ range)) (bounded : log.length < maxFile) (small : index.facts.Small)
    (passed : Nat) : (index.facts.observeAll ((placed J (joinLines before).length range).take passed)).1.Small := by
  rw [observeAll_eq]
  apply small.applyAll
  intro fact listed
  obtain ⟨record, passedOn, made⟩ := List.mem_flatMap.mp listed
  exact facts_small begins bounded record (List.mem_of_mem_take passedOn) fact made

theorem observed_knows (knows : ∀ atom, Known J canonicalUuid before atom → index.facts.Knows atom)
    (within : ∀ atom, index.facts.Knows atom → Known J canonicalUuid (before ++ range) atom) :
    (index.facts.observeAll (placed J (joinLines before).length range)).1.Knows atom ↔
      Known J canonicalUuid (before ++ range) atom := by
  rw [knows_observeAll]
  constructor
  · rintro (known | new)
    · exact within atom known
    · exact known_append.mpr (Or.inr new)
  · intro known
    exact (known_append.mp known).imp_left (knows atom)

theorem establishes_take {records : List (Value × Nat)} {passed : Nat}
    (told : Establishes canonicalUuid (records.take passed) atom) : Establishes canonicalUuid records atom := by
  rw [← List.take_append_drop passed records]
  exact establishes_append.mpr (Or.inl told)

theorem Index.Sound.stopped (sound : index.Sound J log) (bounded : log.length < maxFile) (passed : Nat)
    (level : index.rewrite = false → index.learns J log passed = []) :
    Index.Sound J log { index with facts := (index.facts.observeAll ((index.scanned J log).records.take passed)).1 } := by
  obtain ⟨small, before, begins, offset, knows, established, journalled⟩ := sound
  obtain ⟨range, ends, _, records, _⟩ := scanned_placed begins offset
  unfold Index.learns at level
  rw [records] at level ⊢
  refine ⟨observed_small ends bounded small passed, before, begins, offset, ?_, ?_, ?_⟩
  · intro atom known
    exact (knows_observeAll _).mpr (Or.inl (knows atom known))
  · intro atom known
    rcases (knows_observeAll _).mp known with before | new
    · exact established atom before
    · exact (known_append.mpr (Or.inr (establishes_take new))).mono ends
  · intro kept atom known
    have old := level kept
    rw [observeAll_eq] at old
    rw [knows_observeAll] at known
    have either := (tells_new _).mpr known
    rw [old, tells_nil, or_false] at either
    exact journalled kept atom either

def Index.Steady (J : Reader) (index : Index canonicalUuid) (log : Bytes) : Prop :=
  Exact J log index.offset index.facts ∨ (index.scanned J log).fault = none

theorem Index.Sound.finished (sound : index.Sound J log) (bounded : log.length < maxFile) (steady : index.Steady J log)
    (order : Order) (tail : String) :
    let scanned := index.scanned J log
    let observed := index.facts.observeAll scanned.records
    observed.1.Small ∧ Exact J log scanned.end_.offset observed.1 ∧
      Entry.Correct J canonicalUuid log ⟨VERSION, if index.rewrite then 0 else index.offset, scanned.end_.offset, tail,
        if index.rewrite then order.1 observed.1.all else observed.2⟩ := by
  obtain ⟨small, before, begins, offset, knows, established, journalled⟩ := sound
  obtain ⟨range, ends, end_, records, whole⟩ := scanned_placed (J := J) begins offset
  have within (atom) (known : index.facts.Knows atom) : Known J canonicalUuid (before ++ range) atom := by
    rcases steady with ⟨lines, same, length, exact⟩ | sound
    · have first : lines <+: before := same.prefix_of_length begins (by omega)
      exact ((exact atom).mp known).mono (first.trans (List.prefix_append _ _))
    · rw [(whole sound).2]
      exact established atom known
  have knowsAfter (atom) : (index.facts.observeAll (placed J (joinLines before).length range)).1.Knows atom ↔
      Known J canonicalUuid (before ++ range) atom := observed_knows knows within
  have smallAfter := observed_small (J := J) ends bounded small (placed J (joinLines before).length range).length
  rw [List.take_length] at smallAfter
  have within64 := ends.length
  have start : (joinLines before).length ≤ (joinLines (before ++ range)).length := by
    rw [joinLines_append, List.length_append]
    omega
  have fits : (joinLines (before ++ range)).length < 2 ^ 64 := by
    unfold maxFile at bounded
    omega
  dsimp only
  rw [end_, records, offset]
  refine ⟨smallAfter, ⟨before ++ range, ends, rfl, knowsAfter⟩, ?_⟩
  cases anew : index.rewrite with
  | true =>
    have tells (atom) : Tells canonicalUuid
        (order.1 (index.facts.observeAll (placed J (joinLines before).length range)).1.all) atom ↔
        Known J canonicalUuid (before ++ range) atom := by rw [tells_perm (order.2 _), tells_all, knowsAfter]
    refine ⟨⟨rfl, Nat.two_pow_pos 64, fits, ?_⟩, [], before ++ range, ends, rfl, rfl, ?_, ?_⟩
    · intro fact listed
      exact small_all smallAfter fact ((order.2 _).mem_iff.mp listed)
    · intro atom known
      exact Or.inr ((tells atom).mpr known)
    · intro atom told
      exact (tells atom).mp told
  | false =>
    have new : index.facts.observeAll (placed J (joinLines before).length range) = _ := observeAll_eq _
    refine ⟨⟨rfl, start.trans_lt fits, fits, ?_⟩, before, range, ends, rfl, rfl, ?_, ?_⟩
    · intro fact listed
      simp only [Bool.false_eq_true, if_false, new] at listed
      obtain ⟨record, passedOn, made⟩ := List.mem_flatMap.mp (mem_of_new listed)
      exact facts_small ends bounded record passedOn fact made
    · intro atom known
      simp only [Bool.false_eq_true, if_false, new]
      exact ((tells_new _).mpr ((known_append.mp known).imp_left (knows atom))).imp_left (journalled anew atom)
    · intro atom told
      simp only [Bool.false_eq_true, if_false, new] at told
      exact known_append.mpr (Or.inr (tells_of_new told))

theorem Index.Sound.catchUp {after : Index canonicalUuid} {entry : Option Entry} {outcome : Except Unit Nat}
    (sound : index.Sound J log) (bounded : log.length < maxFile) (steady : (index.checked digest log).Steady J log)
    {stop : Stop} {order : Order} (level : ¬index.Ahead J digest log stop)
    (caught : index.catchUp J digest log stop order = (after, entry, outcome)) :
    after.Sound J log ∧ (∀ written ∈ entry, written.Correct J canonicalUuid log) ∧
      (stop = .never ∨ entry.isSome ∨ outcome.toBool = true → Exact J log after.offset after.facts) := by
  have checked : (index.checked digest log).Sound J log := sound.checked
  obtain ⟨smallAfter, exact, correct⟩ := checked.finished bounded steady order
    (tailDigest digest log ((index.checked digest log).scanned J log).end_.offset)
  unfold Index.catchUp at caught
  dsimp only at caught
  split at caught
  · obtain ⟨rfl, rfl, rfl⟩ := caught
    exact ⟨Index.sound_of_exact small_default (reset_exact J digest log), by simp, by simp [Except.toBool]⟩
  · obtain ⟨rfl, rfl, rfl⟩ := caught
    exact ⟨sound, by simp, by simp [Except.toBool]⟩
  · obtain ⟨rfl, rfl, rfl⟩ := caught
    refine ⟨checked.stopped bounded _ ?_, by simp, by simp [Except.toBool]⟩
    intro kept
    by_contra new
    exact level ⟨kept, new⟩
  · split at caught
    · split at caught
      · obtain ⟨rfl, rfl, rfl⟩ := caught
        exact ⟨Index.sound_of_exact smallAfter exact, by simp, fun _ => exact⟩
      · obtain ⟨rfl, rfl, rfl⟩ := caught
        refine ⟨Index.sound_of_exact smallAfter exact, ?_, fun _ => exact⟩
        intro written is
        rw [← Option.some.inj is]
        exact correct
    · obtain ⟨rfl, rfl, rfl⟩ := caught
      exact ⟨Index.sound_of_exact smallAfter exact, by simp, fun _ => exact⟩

end

end CommonMeasure.Observation
