import CommonMeasure.Observation.CatchUp

namespace CommonMeasure.Observation

open Json Evidence

def eventOf (record : Value) : Option String := (record.get "event").asStr

def payloadText (record : Value) (name : String) : Option String := ((record.get "payload").get name).asStr

def Told (canonicalUuid : String → Bool) (record : Value) (at_ : Nat) : Atom → Prop
  | .crossing => eventOf record = some "crossing_mediated" ∨ eventOf record = some "crossing_refused"
  | .acquisition id => eventOf record = some "crossing_mediated" ∧ payloadText record "acquisition_id" = some id
  | .content id hash => eventOf record = some "crossing_mediated" ∧ payloadText record "acquisition_id" = some id ∧
      payloadText record "content_hash" = some hash
  | .file id => eventOf record = some "crossing_mediated" ∧ payloadText record "acquisition_id" = some id ∧
      isObject ((record.get "payload").get "delivered_file") = true
  | .entry acquisition generation => eventOf record = some "context_entered" ∧
      payloadText record "acquisition_id" = some acquisition ∧ payloadText record "generation_id" = some generation
  | .representation acquisition generation hash => eventOf record = some "context_entered" ∧
      payloadText record "acquisition_id" = some acquisition ∧ payloadText record "generation_id" = some generation ∧
      payloadText record "representation_hash" = some hash
  | .generation generation by_ => eventOf record = some "output_associated" ∧
      payloadText record "generation_id" = some generation ∧ at_ ≤ by_
  | .output output by_ => eventOf record = some "output_associated" ∧ payloadText record "output_id" = some output ∧
      at_ ≤ by_
  | .completed turn => eventOf record = some "turn_completed" ∧ payloadText record "turn_id" = some turn ∧
      canonicalUuid turn = true
  | .action id => eventOf record = some "action_decided" ∧ payloadText record "action_id" = some id

section

variable {canonicalUuid : String → Bool} {record : Value} {at_ : Nat} {atom : Atom}

theorem tells_toList {value : Option String} {make : String → Fact} : Tells canonicalUuid (value.map make).toList atom ↔
    ∃ held, value = some held ∧ (make held).Tells canonicalUuid atom := by
  cases value <;> simp

theorem tells_texts {value : Option String} {make : String → Fact} : Tells canonicalUuid (value.toList.map make) atom ↔
    ∃ held, value = some held ∧ (make held).Tells canonicalUuid atom := by
  cases value <;> simp

theorem tells_recordFacts : Tells canonicalUuid (recordFacts record at_) atom ↔ Told canonicalUuid record at_ atom := by
  unfold recordFacts
  dsimp only
  split
  · rename_i is
    rw [tells_cons, tells_toList]
    cases atom <;> simp [Told, eventOf, payloadText, is, Fact.Tells]
  · rename_i is
    rw [tells_cons, tells_nil]
    cases atom <;> simp [Told, eventOf, is, Fact.Tells]
  · rename_i is
    split
    · rename_i acquisition generation handle run
      rw [tells_cons, tells_nil]
      cases atom <;> simp [Told, eventOf, payloadText, is, handle, run, Fact.Tells, @eq_comm _ acquisition,
        @eq_comm _ generation, and_assoc]
    · rename_i missing
      rw [tells_nil]
      cases atom with
      | entry acquisition generation =>
        simp only [Told, payloadText, false_iff]
        rintro ⟨_, handle, run⟩
        exact missing _ _ handle run
      | representation acquisition generation hash =>
        simp only [Told, payloadText, false_iff]
        rintro ⟨_, handle, run, _⟩
        exact missing _ _ handle run
      | _ => simp [Told, eventOf, is]
  · rename_i is
    split
    · rw [tells_cons, tells_nil]
      cases atom <;> simp [Told, eventOf, payloadText, is, Fact.Tells]
    · rename_i missing
      rw [tells_nil]
      cases atom with
      | generation generation by_ =>
        simp only [Told, payloadText, false_iff]
        rintro ⟨_, run, _⟩
        exact missing (Or.inl (by rw [run]; rfl))
      | output output by_ =>
        simp only [Told, payloadText, false_iff]
        rintro ⟨_, made, _⟩
        exact missing (Or.inr (by rw [made]; rfl))
      | _ => simp [Told, eventOf, is]
  · rename_i is
    rw [tells_texts]
    cases atom <;> simp [Told, eventOf, payloadText, is, Fact.Tells, and_comm]
  · rename_i is
    rw [tells_texts]
    cases atom <;> simp [Told, eventOf, payloadText, is, Fact.Tells]
  · rename_i mediated refused entered associated completed decided
    rw [tells_nil]
    refine iff_of_false not_false ?_
    cases atom with
    | crossing => exact fun told => told.elim mediated refused
    | acquisition | content | file => exact fun told => mediated told.1
    | entry | representation => exact fun told => entered told.1
    | generation | output => exact fun told => associated told.1
    | completed => exact fun told => completed told.1
    | action => exact fun told => decided told.1

theorem establishes_iff {records : List (Value × Nat)} : Establishes canonicalUuid records atom ↔
    ∃ held ∈ records, Told canonicalUuid held.1 held.2 atom := by
  constructor
  · rintro ⟨fact, listed, tells⟩
    obtain ⟨held, recorded, made⟩ := List.mem_flatMap.mp listed
    exact ⟨held, recorded, tells_recordFacts.mp ⟨fact, made, tells⟩⟩
  · rintro ⟨held, recorded, told⟩
    obtain ⟨fact, made, tells⟩ := tells_recordFacts.mpr told
    exact ⟨fact, List.mem_flatMap.mpr ⟨held, recorded, made⟩, tells⟩

end

section

variable {canonicalUuid : String → Bool} (index : Index canonicalUuid)

def Index.crossingRecorded : Bool := index.facts.crossing

def Index.admitted (acquisition : String) : Bool := (index.facts.acquisitions.lookup acquisition).isSome

def Index.admittedWith (acquisition contentHash : String) : Bool :=
  (index.facts.acquisitions.lookup acquisition).any (contentHash ∈ ·)

def Index.deliveredFile (acquisition : String) : Bool := acquisition ∈ index.facts.files

def Index.entered (acquisition generation : String) : Bool := (index.facts.entries.lookup (acquisition, generation)).isSome

def Index.enteredAs (acquisition generation hash : String) : Bool :=
  (index.facts.entries.lookup (acquisition, generation)).any (hash ∈ ·)

def Index.generationHasOutput (generation : String) : Bool := (index.facts.outputsByGeneration.lookup generation).isSome

def Index.completed (generation : String) : Bool := generation ∈ index.facts.completed

def Index.actionRecorded (action : String) : Bool := action ∈ index.facts.actions

def lineAt (log : Bytes) (at_ : Nat) : Bytes :=
  match splitLines (log.drop at_) with
  | (line :: _, _) => line
  | ([], tail) => tail

def Index.firstAt (generation output : String) : Option Nat :=
  [index.facts.outputsByGeneration.lookup generation, index.facts.outputsById.lookup output].reduceOption.min?

def isText (value : Value) (text : String) : Bool := value.asStr = some text

/-- The payload of the `output_associated` record of this generation or this output that starts there. -/
def outputPayload (J : Reader) (log : Bytes) (generation output : String) (at_ : Nat) : Option Value :=
  (((J.fromSlice (lineAt log at_)).filter fun record => isText (record.get "event") "output_associated").map
    fun record => record.get "payload").filter
      fun payload => isText (payload.get "generation_id") generation || isText (payload.get "output_id") output

def Index.firstOutput (J : Reader) (digest : Bytes → String) (log : Bytes) (generation output : String) :
    Index canonicalUuid × Except Unit (Option Value) :=
  match index.firstAt generation output with
  | none => (index, .ok none)
  | some at_ =>
    match outputPayload J log generation output at_ with
    | some payload => (index, .ok (some payload))
    | none => (Index.reset digest, .error ())

end

section

variable {canonicalUuid : String → Bool} {index : Index canonicalUuid}

theorem admitted_iff {acquisition : String} : index.admitted acquisition = true ↔
    index.facts.Knows (.acquisition acquisition) :=
  AList.lookup_isSome

theorem any_mem_iff {known : Option (List String)} {value : String} :
    known.any (fun values => decide (value ∈ values)) = true ↔ ∃ values ∈ known, value ∈ values := by
  cases known <;> simp

theorem admittedWith_iff {acquisition contentHash : String} :
    index.admittedWith acquisition contentHash = true ↔ index.facts.Knows (.content acquisition contentHash) := any_mem_iff

theorem deliveredFile_iff {acquisition : String} :
    index.deliveredFile acquisition = true ↔ index.facts.Knows (.file acquisition) := decide_eq_true_iff

theorem entered_iff {acquisition generation : String} :
    index.entered acquisition generation = true ↔ index.facts.Knows (.entry acquisition generation) := AList.lookup_isSome

theorem enteredAs_iff {acquisition generation hash : String} :
    index.enteredAs acquisition generation hash = true ↔ index.facts.Knows (.representation acquisition generation hash) :=
  any_mem_iff

theorem completed_iff {generation : String} : index.completed generation = true ↔ index.facts.Knows (.completed generation) :=
  decide_eq_true_iff

theorem actionRecorded_iff {action : String} : index.actionRecorded action = true ↔ index.facts.Knows (.action action) :=
  decide_eq_true_iff

theorem hasBy_of_lookup {known : AList fun _ : String => Nat} {key : String} :
    (known.lookup key).isSome = true ↔ ∃ by_, HasBy known key by_ := by
  constructor
  · intro found
    obtain ⟨first, is⟩ := Option.isSome_iff_exists.mp found
    exact ⟨first, first, is, le_rfl⟩
  · rintro ⟨by_, first, found, _⟩
    exact Option.isSome_iff_exists.mpr ⟨first, found⟩

theorem generationHasOutput_iff {generation : String} :
    index.generationHasOutput generation = true ↔ ∃ by_, index.facts.Knows (.generation generation by_) := hasBy_of_lookup

end

end CommonMeasure.Observation
