import CommonMeasure.Foundation.Words

namespace CommonMeasure.Integrity

def LABELLED : String := "labelled"

def STRICT : String := "strict"

structure Passage where
  id : String
  start : Nat
  stop : Nat
  deriving DecidableEq

structure KeptSpan where
  start : Nat
  stop : Nat
  label : String
  passage : String
  deriving DecidableEq

structure Signed where
  display_mode : String
  passages : List Passage
  markers : List KeptSpan

structure Release where
  text : List Char
  signed : Signed

inductive VerificationState where
  | verified | failed | missing
  deriving DecidableEq

structure Read where
  release : Release
  verification : VerificationState

def Release.passage (release : Release) (id : String) : Option (Passage × List Char) :=
  (release.signed.passages.find? (·.id = id)).bind fun passage =>
    (slice release.text passage.start passage.stop).map fun text => (passage, text)

def readPassages (text : List Char) : List String → List Passage → Except String Unit
  | _, [] => .ok ()
  | ids, passage :: rest =>
    if passage.id ∈ ids then .error "two passages share an id"
    else if (slice text passage.start passage.stop).isNone then .error "a passage does not lie in the text"
    else readPassages text (passage.id :: ids) rest

def readMarkers (release : Release) : List KeptSpan → Except String Unit
  | [] => .ok ()
  | marker :: rest =>
    if (slice release.text marker.start marker.stop).isNone then .error "a marker does not lie in the text"
    else match release.signed.passages.find? (·.id = marker.passage) with
      | none => .error "a marker names no passage of the release"
      | some passage =>
        if marker.start < passage.start ∨ passage.stop < marker.stop then
          .error "a marker does not lie within the passage it names"
        else readMarkers release rest

def read (release : Release) : Except String Release :=
  match readPassages release.text [] release.signed.passages with
  | .error fault => .error fault
  | .ok () =>
    match readMarkers release release.signed.markers with
    | .error fault => .error fault
    | .ok () => .ok release

/-- Passages and markers lie in the text, each passage under an id of its own, each marker within the passage it names. -/
structure Release.Placed (release : Release) : Prop where
  distinct : (release.signed.passages.map Passage.id).Nodup
  passages : ∀ p ∈ release.signed.passages, ∃ part, Lies release.text p.start p.stop part
  markers : ∀ m ∈ release.signed.markers, ∃ part, Lies release.text m.start m.stop part
  within : ∀ m ∈ release.signed.markers, ∃ p ∈ release.signed.passages, p.id = m.passage ∧ p.start ≤ m.start ∧ m.stop ≤ p.stop

theorem lies_of_slice {text : List Char} {start stop : Nat} (held : ¬(slice text start stop).isNone = true) :
    ∃ part, Lies text start stop part := by
  cases found : slice text start stop with
  | none => exact (held (by rw [found, Option.isNone_none])).elim
  | some part => exact ⟨part, slice_iff.mp found⟩

theorem readPassages_ok {text : List Char} {ids : List String} {passages : List Passage}
    (accepted : readPassages text ids passages = .ok ()) :
    (∀ p ∈ passages, p.id ∉ ids ∧ ∃ part, Lies text p.start p.stop part) ∧ (passages.map Passage.id).Nodup := by
  induction passages generalizing ids with
  | nil => simp
  | cons passage rest ih =>
    rw [readPassages] at accepted
    split at accepted
    · cases accepted
    rename_i fresh
    split at accepted
    · cases accepted
    rename_i held
    obtain ⟨later, distinct⟩ := ih accepted
    refine ⟨?_, List.nodup_cons.mpr ⟨?_, distinct⟩⟩
    · intro p listed
      rcases List.mem_cons.mp listed with rfl | listed
      · exact ⟨fresh, lies_of_slice held⟩
      · exact ⟨fun known => (later p listed).1 (List.mem_cons_of_mem _ known), (later p listed).2⟩
    · intro repeated
      obtain ⟨p, listed, same⟩ := List.mem_map.mp repeated
      exact (later p listed).1 (same ▸ List.mem_cons_self)

theorem readMarkers_ok {release : Release} {markers : List KeptSpan} (accepted : readMarkers release markers = .ok ()) :
    ∀ m ∈ markers, (∃ part, Lies release.text m.start m.stop part) ∧
      ∃ p ∈ release.signed.passages, p.id = m.passage ∧ p.start ≤ m.start ∧ m.stop ≤ p.stop := by
  induction markers with
  | nil => simp
  | cons marker rest ih =>
    rw [readMarkers] at accepted
    split at accepted
    · cases accepted
    rename_i held
    split at accepted
    · cases accepted
    rename_i passage found
    split at accepted
    · cases accepted
    rename_i inside
    intro m listed
    rcases List.mem_cons.mp listed with rfl | listed
    · have named := List.find?_some found
      exact ⟨lies_of_slice held, passage, List.mem_of_find?_eq_some found, by simpa using named, by omega, by omega⟩
    · exact ih accepted m listed

theorem read_placed {release accepted : Release} (done : read release = .ok accepted) :
    accepted = release ∧ release.Placed := by
  rw [read] at done
  split at done
  · cases done
  rename_i passages
  split at done
  · cases done
  rename_i markers
  cases done
  obtain ⟨each, distinct⟩ := readPassages_ok passages
  have marked := readMarkers_ok markers
  exact ⟨rfl, distinct, fun p listed => (each p listed).2, fun m listed => (marked m listed).1,
    fun m listed => (marked m listed).2⟩

theorem Release.Placed.passage {release : Release} (placed : release.Placed) {p : Passage}
    (listed : p ∈ release.signed.passages) :
    ∃ part, release.passage p.id = some (p, part) ∧ Lies release.text p.start p.stop part := by
  have found : release.signed.passages.find? (·.id = p.id) = some p := by
    have distinct := placed.distinct
    generalize release.signed.passages = passages at listed distinct
    induction passages with
    | nil => cases listed
    | cons q rest ih =>
      rw [List.map_cons, List.nodup_cons] at distinct
      rcases List.mem_cons.mp listed with rfl | listed
      · simp
      · have other : q.id ≠ p.id := fun same => distinct.1 (same ▸ List.mem_map_of_mem listed)
        rw [List.find?_cons_of_neg (by simpa using other)]
        exact ih listed distinct.2
  obtain ⟨part, lies⟩ := placed.passages p listed
  exact ⟨part, by rw [Release.passage, found, Option.bind_some, slice_iff.mpr lies, Option.map_some], lies⟩

theorem passage_some {release : Release} {id : String} {p : Passage} {part : List Char}
    (found : release.passage id = some (p, part)) :
    p ∈ release.signed.passages ∧ p.id = id ∧ Lies release.text p.start p.stop part := by
  obtain ⟨q, listed, held⟩ := Option.bind_eq_some_iff.mp found
  obtain ⟨text, lies, same⟩ := Option.map_eq_some_iff.mp held
  cases same
  exact ⟨List.mem_of_find?_eq_some listed, by simpa using List.find?_some listed, slice_iff.mp lies⟩

structure Span where
  start : Nat
  stop : Nat
  deriving DecidableEq

def Span.trimmed (text : List Char) (start stop : Nat) : Span :=
  let part := (slice text start stop).getD []
  let lead := byteLen part - byteLen (trimStart part)
  ⟨start + lead, start + lead + byteLen (trim part)⟩

theorem Span.trimmed_lies {text part : List Char} {start stop : Nat} (lies : Lies text start stop part) :
    Lies text (trimmed text start stop).start (trimmed text start stop).stop (trim part) := by
  obtain ⟨lead, _, opened⟩ := trimStart_parts part
  obtain ⟨tail, _, closed⟩ := trim_parts part
  have held : (slice text start stop).getD [] = part := by rw [slice_iff.mpr lies, Option.getD_some]
  have length : byteLen part - byteLen (trimStart part) = byteLen lead := by
    have := congrArg byteLen opened
    rw [byteLen_append] at this
    omega
  obtain ⟨before, after, rfl, rfl, _⟩ := lies
  refine ⟨before ++ lead, tail ++ after, ?_, ?_, ?_⟩
  · rw [List.append_assoc (before ++ lead), ← List.append_assoc (trim part), ← closed, List.append_assoc before lead,
      ← List.append_assoc lead, ← opened, List.append_assoc]
  · simp only [trimmed, held, length, byteLen_append]
  · simp only [trimmed, held]

end CommonMeasure.Integrity
