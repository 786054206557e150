import CommonMeasure.Foundation.Maps
import CommonMeasure.Json.Text

/-!
# What a session log establishes

A request is checked against facts the log's records established.
-/

namespace CommonMeasure.Observation

open Json

inductive Fact where
  | crossing
  | acquisition (id : String) (contentHash : Option String) (file : Bool)
  | contextEntry (acquisition generation : String) (representationHash : Option String)
  | output (generation output : Option String) (at_ : Nat)
  | completed (turn : String)
  | action (id : String)
  deriving DecidableEq

/-- What the index holds. A file was handed over for an acquisition, and a turn a request can ask about is a UUID in
the form one prints as. -/
structure Facts (canonicalUuid : String → Bool) where
  crossing : Bool
  acquisitions : AList fun _ : String => List String
  files : List String
  entries : AList fun _ : String × String => List String
  outputsByGeneration : AList fun _ : String => Nat
  outputsById : AList fun _ : String => Nat
  completed : List String
  actions : List String
  filed : ∀ id ∈ files, id ∈ acquisitions
  asked : ∀ turn ∈ completed, canonicalUuid turn = true

section

variable {canonicalUuid : String → Bool}

instance : Inhabited (Facts canonicalUuid) :=
  ⟨⟨false, ∅, [], ∅, ∅, ∅, [], [], by simp, by simp⟩⟩

def Facts.apply (facts : Facts canonicalUuid) : Fact → Facts canonicalUuid × Bool
  | .crossing => ({ facts with crossing := true }, !facts.crossing)
  | .acquisition id contentHash file =>
    let acquisitions := addTo facts.acquisitions id contentHash
    let files := if file then insertNew facts.files id else (facts.files, false)
    ({ facts with
        acquisitions := acquisitions.1
        files := files.1
        filed := by
          intro other listed
          rw [mem_addTo]
          cases file with
          | false => exact Or.inr (facts.filed other listed)
          | true => exact (mem_insertNew.mp listed).symm.imp_right (facts.filed other) },
      acquisitions.2 || files.2)
  | .contextEntry acquisition generation representationHash =>
    let entries := addTo facts.entries (acquisition, generation) representationHash
    ({ facts with entries := entries.1 }, entries.2)
  | .output generation output at_ =>
    let byGeneration := earliest facts.outputsByGeneration generation at_
    let byId := earliest facts.outputsById output at_
    ({ facts with outputsByGeneration := byGeneration.1, outputsById := byId.1 }, byId.2 || byGeneration.2)
  | .completed turn =>
    if canonical : canonicalUuid turn = true then
      let completed := insertNew facts.completed turn
      ({ facts with
          completed := completed.1
          asked := by
            intro other listed
            rcases mem_insertNew.mp listed with before | rfl
            · exact facts.asked other before
            · exact canonical },
        completed.2)
    else (facts, false)
  | .action id =>
    let actions := insertNew facts.actions id
    ({ facts with actions := actions.1 }, actions.2)

def Facts.applyAll (facts : Facts canonicalUuid) : List Fact → Facts canonicalUuid × List Fact
  | [] => (facts, [])
  | fact :: rest =>
    let applied := facts.apply fact
    let after := applied.1.applyAll rest
    (after.1, if applied.2 then fact :: after.2 else after.2)

end

/-! ### Records -/

def isObject : Value → Bool
  | .object _ => true
  | _ => false

/-- What the record that starts at byte `at_` establishes. -/
def recordFacts (record : Value) (at_ : Nat) : List Fact :=
  let text := fun key => ((record.get "payload").get key).asStr
  match (record.get "event").asStr with
  | some "crossing_mediated" =>
    .crossing :: ((text "acquisition_id").map fun id =>
      .acquisition id (text "content_hash") (isObject ((record.get "payload").get "delivered_file"))).toList
  | some "crossing_refused" => [.crossing]
  | some "context_entered" =>
    match text "acquisition_id", text "generation_id" with
    | some acquisition, some generation => [.contextEntry acquisition generation (text "representation_hash")]
    | _, _ => []
  | some "output_associated" =>
    let generation := text "generation_id"
    let output := text "output_id"
    if generation.isSome ∨ output.isSome then [.output generation output at_] else []
  | some "turn_completed" => (text "turn_id").toList.map .completed
  | some "action_decided" => (text "action_id").toList.map .action
  | _ => []

section

variable {canonicalUuid : String → Bool}

def Facts.observe (facts : Facts canonicalUuid) (record : Value) (at_ : Nat) : Facts canonicalUuid × List Fact :=
  facts.applyAll (recordFacts record at_)

def Facts.observeAll (facts : Facts canonicalUuid) : List (Value × Nat) → Facts canonicalUuid × List Fact
  | [] => (facts, [])
  | (record, at_) :: rest =>
    let observed := facts.observe record at_
    let after := observed.1.observeAll rest
    (after.1, observed.2 ++ after.2)

def eachHash (hashes : List String) : List (Option String) := if hashes = [] then [none] else hashes.map some

def Facts.all (facts : Facts canonicalUuid) : List Fact :=
  (if facts.crossing then [Fact.crossing] else []) ++
    facts.acquisitions.entries.flatMap (fun entry =>
      (eachHash entry.2).map fun contentHash => .acquisition entry.1 contentHash (entry.1 ∈ facts.files)) ++
    facts.entries.entries.flatMap (fun entry =>
      (eachHash entry.2).map fun representationHash => .contextEntry entry.1.1 entry.1.2 representationHash) ++
    facts.outputsByGeneration.entries.map (fun entry => .output (some entry.1) none entry.2) ++
    facts.outputsById.entries.map (fun entry => .output none (some entry.1) entry.2) ++
    facts.completed.map .completed ++
    facts.actions.map .action

end

inductive Atom where
  | crossing
  | acquisition (id : String)
  | content (id hash : String)
  | file (id : String)
  | entry (acquisition generation : String)
  | representation (acquisition generation hash : String)
  | generation (generation : String) (by_ : Nat)
  | output (output : String) (by_ : Nat)
  | completed (turn : String)
  | action (id : String)

section

variable {canonicalUuid : String → Bool}

def Facts.Knows (facts : Facts canonicalUuid) : Atom → Prop
  | .crossing => facts.crossing = true
  | .acquisition id => id ∈ facts.acquisitions
  | .content id hash => HasValue facts.acquisitions id hash
  | .file id => id ∈ facts.files
  | .entry acquisition generation => (acquisition, generation) ∈ facts.entries
  | .representation acquisition generation hash => HasValue facts.entries (acquisition, generation) hash
  | .generation generation by_ => HasBy facts.outputsByGeneration generation by_
  | .output output by_ => HasBy facts.outputsById output by_
  | .completed turn => turn ∈ facts.completed
  | .action id => id ∈ facts.actions

def Fact.Tells (canonicalUuid : String → Bool) : Fact → Atom → Prop
  | .crossing, .crossing => True
  | .acquisition id _ _, .acquisition other => other = id
  | .acquisition id contentHash _, .content other hash => other = id ∧ contentHash = some hash
  | .acquisition id _ file, .file other => file = true ∧ other = id
  | .contextEntry handle run _, .entry other another => (other, another) = (handle, run)
  | .contextEntry handle run representationHash, .representation other another hash =>
    (other, another) = (handle, run) ∧ representationHash = some hash
  | .output run _ at_, .generation other by_ => run = some other ∧ at_ ≤ by_
  | .output _ made at_, .output other by_ => made = some other ∧ at_ ≤ by_
  | .completed turn, .completed other => canonicalUuid turn = true ∧ other = turn
  | .action id, .action other => other = id
  | _, _ => False

def Tells (canonicalUuid : String → Bool) (facts : List Fact) (atom : Atom) : Prop :=
  ∃ fact ∈ facts, fact.Tells canonicalUuid atom

variable {facts : Facts canonicalUuid} {atom : Atom}

theorem knows_apply (fact : Fact) : (facts.apply fact).1.Knows atom ↔ facts.Knows atom ∨ fact.Tells canonicalUuid atom := by
  cases fact with
  | crossing => cases atom <;> simp [Facts.apply, Facts.Knows, Fact.Tells]
  | acquisition id contentHash file =>
    cases atom with
    | acquisition other => exact mem_addTo.trans or_comm
    | content other hash => exact hasValue_addTo
    | file other =>
      cases file with
      | false => simp [Facts.apply, Facts.Knows, Fact.Tells]
      | true => simpa [Facts.apply, Facts.Knows, Fact.Tells] using mem_insertNew
    | _ => simp [Facts.apply, Facts.Knows, Fact.Tells]
  | contextEntry acquisition generation representationHash =>
    cases atom with
    | entry other another => exact mem_addTo.trans or_comm
    | representation other another hash => exact hasValue_addTo
    | _ => simp [Facts.apply, Facts.Knows, Fact.Tells]
  | output generation output at_ =>
    cases atom with
    | generation other by_ => exact hasBy_earliest
    | output other by_ => exact hasBy_earliest
    | _ => simp [Facts.apply, Facts.Knows, Fact.Tells]
  | completed turn =>
    unfold Facts.apply
    dsimp only
    split
    · rename_i canonical
      cases atom with
      | completed other => simpa [Facts.Knows, Fact.Tells, canonical] using mem_insertNew
      | _ => simp [Facts.Knows, Fact.Tells]
    · rename_i other
      cases atom <;> simp [Facts.Knows, Fact.Tells, other]
  | action id =>
    cases atom with
    | action other => exact mem_insertNew
    | _ => simp [Facts.apply, Facts.Knows, Fact.Tells]

theorem knows_of_old {fact : Fact} (old : (facts.apply fact).2 = false) (tells : fact.Tells canonicalUuid atom) :
    facts.Knows atom := by
  cases fact with
  | crossing =>
    cases atom with
    | crossing => simpa [Facts.apply, Facts.Knows] using old
    | _ => exact tells.elim
  | acquisition id contentHash file =>
    obtain ⟨known, filed⟩ := Bool.or_eq_false_iff.mp old
    obtain ⟨present, values⟩ := addTo_old known
    cases atom with
    | acquisition other =>
      obtain rfl : other = id := tells
      exact present
    | content other hash =>
      obtain ⟨rfl, given⟩ := tells
      exact values hash given
    | file other =>
      obtain ⟨rfl, rfl⟩ := tells
      exact insertNew_old filed
    | _ => exact tells.elim
  | contextEntry acquisition generation representationHash =>
    obtain ⟨present, values⟩ := addTo_old old
    cases atom with
    | entry other another =>
      obtain ⟨rfl, rfl⟩ := Prod.mk.inj tells
      exact present
    | representation other another hash =>
      obtain ⟨same, given⟩ := tells
      obtain ⟨rfl, rfl⟩ := Prod.mk.inj same
      exact values hash given
    | _ => exact tells.elim
  | output generation output at_ =>
    obtain ⟨byId, byGeneration⟩ := Bool.or_eq_false_iff.mp old
    cases atom with
    | generation other by_ =>
      obtain ⟨first, found, le⟩ := earliest_old byGeneration other tells.1
      exact ⟨first, found, le.trans tells.2⟩
    | output other by_ =>
      obtain ⟨first, found, le⟩ := earliest_old byId other tells.1
      exact ⟨first, found, le.trans tells.2⟩
    | _ => exact tells.elim
  | completed turn =>
    cases atom with
    | completed other =>
      obtain ⟨canonical, rfl⟩ := tells
      unfold Facts.apply at old
      dsimp only at old
      rw [dif_pos canonical] at old
      exact insertNew_old old
    | _ => exact tells.elim
  | action id =>
    cases atom with
    | action other =>
      obtain rfl : other = id := tells
      exact insertNew_old old
    | _ => exact tells.elim

@[simp] theorem tells_nil : Tells canonicalUuid [] atom ↔ False := by simp [Tells]

@[simp] theorem tells_cons {fact : Fact} {rest : List Fact} :
    Tells canonicalUuid (fact :: rest) atom ↔ fact.Tells canonicalUuid atom ∨ Tells canonicalUuid rest atom := by simp [Tells]

@[simp] theorem tells_append {some_ more : List Fact} :
    Tells canonicalUuid (some_ ++ more) atom ↔ Tells canonicalUuid some_ atom ∨ Tells canonicalUuid more atom := by
  simp [Tells, or_and_right, exists_or]

theorem tells_perm {some_ other : List Fact} (same : some_.Perm other) :
    Tells canonicalUuid some_ atom ↔ Tells canonicalUuid other atom := by simp [Tells, same.mem_iff]

theorem knows_applyAll (fresh : List Fact) :
    (facts.applyAll fresh).1.Knows atom ↔ facts.Knows atom ∨ Tells canonicalUuid fresh atom := by
  induction fresh generalizing facts with
  | nil => simp [Facts.applyAll]
  | cons fact rest ih =>
    change ((facts.apply fact).1.applyAll rest).1.Knows atom ↔ _
    rw [ih, knows_apply, tells_cons, or_assoc]

theorem tells_new (fresh : List Fact) :
    facts.Knows atom ∨ Tells canonicalUuid (facts.applyAll fresh).2 atom ↔ facts.Knows atom ∨
      Tells canonicalUuid fresh atom := by
  induction fresh generalizing facts with
  | nil => rfl
  | cons fact rest ih =>
    have after := @ih (facts.apply fact).1
    rw [knows_apply, or_assoc, or_assoc] at after
    unfold Facts.applyAll
    dsimp only
    cases news : (facts.apply fact).2 with
    | true =>
      rw [if_pos rfl, tells_cons, tells_cons]
      exact after
    | false =>
      rw [if_neg (by simp), tells_cons]
      have old : fact.Tells canonicalUuid atom → facts.Knows atom := knows_of_old news
      constructor
      · rintro (knows | tells)
        · exact Or.inl knows
        · exact after.mp (Or.inr (Or.inr tells))
      · intro told
        rcases after.mpr told with knows | tells | tells
        · exact Or.inl knows
        · exact Or.inl (old tells)
        · exact Or.inr tells

theorem applyAll_cons (fact : Fact) (rest : List Fact) : facts.applyAll (fact :: rest) =
    (((facts.apply fact).1.applyAll rest).1, if (facts.apply fact).2 then fact :: ((facts.apply fact).1.applyAll rest).2
      else ((facts.apply fact).1.applyAll rest).2) := rfl

theorem mem_of_new {fresh : List Fact} {fact : Fact} (new : fact ∈ (facts.applyAll fresh).2) : fact ∈ fresh := by
  induction fresh generalizing facts with
  | nil => exact new
  | cons first rest ih =>
    rw [applyAll_cons] at new
    dsimp only at new
    split at new
    · rcases List.mem_cons.mp new with rfl | later
      · exact List.mem_cons_self
      · exact List.mem_cons_of_mem _ (ih later)
    · exact List.mem_cons_of_mem _ (ih new)

theorem tells_of_new {fresh : List Fact} (tells : Tells canonicalUuid (facts.applyAll fresh).2 atom) :
    Tells canonicalUuid fresh atom := by
  obtain ⟨fact, new, told⟩ := tells
  exact ⟨fact, mem_of_new new, told⟩

def Establishes (canonicalUuid : String → Bool) (records : List (Value × Nat)) (atom : Atom) : Prop :=
  Tells canonicalUuid (records.flatMap fun record => recordFacts record.1 record.2) atom

theorem applyAll_append (some_ more : List Fact) : facts.applyAll (some_ ++ more) =
    (((facts.applyAll some_).1.applyAll more).1, (facts.applyAll some_).2 ++ ((facts.applyAll some_).1.applyAll more).2) := by
  induction some_ generalizing facts with
  | nil => rfl
  | cons fact rest ih =>
    simp only [List.cons_append, applyAll_cons, ih]
    split <;> rfl

theorem observeAll_eq (records : List (Value × Nat)) :
    facts.observeAll records = facts.applyAll (records.flatMap fun record => recordFacts record.1 record.2) := by
  induction records generalizing facts with
  | nil => rfl
  | cons record rest ih =>
    rw [List.flatMap_cons, applyAll_append, ← ih]
    rfl

theorem knows_observeAll (records : List (Value × Nat)) :
    (facts.observeAll records).1.Knows atom ↔ facts.Knows atom ∨ Establishes canonicalUuid records atom := by
  rw [observeAll_eq]
  exact knows_applyAll _

@[simp] theorem establishes_append {some_ more : List (Value × Nat)} :
    Establishes canonicalUuid (some_ ++ more) atom ↔
      Establishes canonicalUuid some_ atom ∨ Establishes canonicalUuid more atom := by
  simp [Establishes]

@[simp] theorem knows_default : (default : Facts canonicalUuid).Knows atom ↔ False := by
  have none_of {κ ν : Type} [DecidableEq κ] (key : κ) (value : ν) :
      ¬HasValue (∅ : AList fun _ : κ => List ν) key value := by simp [HasValue]
  have never (key : String) (by_ : Nat) : ¬HasBy (∅ : AList fun _ : String => Nat) key by_ := by simp [HasBy]
  cases atom with
  | content id hash => exact iff_of_false (none_of id hash) not_false
  | representation acquisition generation hash => exact iff_of_false (none_of (acquisition, generation) hash) not_false
  | generation generation by_ => exact iff_of_false (never generation by_) not_false
  | output output by_ => exact iff_of_false (never output by_) not_false
  | crossing => exact iff_of_false Bool.false_ne_true not_false
  | acquisition id => exact iff_of_false (AList.notMem_empty id) not_false
  | entry acquisition generation => exact iff_of_false (AList.notMem_empty _) not_false
  | file id => exact iff_of_false List.not_mem_nil not_false
  | completed turn => exact iff_of_false List.not_mem_nil not_false
  | action id => exact iff_of_false List.not_mem_nil not_false

theorem tells_eachHash {hashes : List String} {make : Option String → Fact} :
    Tells canonicalUuid ((eachHash hashes).map make) atom ↔
      hashes = [] ∧ (make none).Tells canonicalUuid atom ∨ ∃ hash ∈ hashes, (make (some hash)).Tells canonicalUuid atom := by
  unfold eachHash Tells
  split
  · rename_i empty
    simp [empty]
  · rename_i filled
    simp [filled]

def keyFacts {κ : Type} (known : AList fun _ : κ => List String) (make : κ → Option String → Fact) : List Fact :=
  known.entries.flatMap fun entry => (eachHash entry.2).map (make entry.1)

theorem tells_keyFacts {κ : Type} [DecidableEq κ] {known : AList fun _ : κ => List String} {make : κ → Option String → Fact} :
    Tells canonicalUuid (keyFacts known make) atom ↔ ∃ key hashes, known.lookup key = some hashes ∧
      (hashes = [] ∧ (make key none).Tells canonicalUuid atom ∨
        ∃ hash ∈ hashes, (make key (some hash)).Tells canonicalUuid atom) := by
  constructor
  · rintro ⟨fact, listed, tells⟩
    obtain ⟨⟨key, hashes⟩, entry, made⟩ := List.mem_flatMap.mp listed
    exact ⟨key, hashes, AList.mem_lookup_iff.mpr entry, tells_eachHash.mp ⟨fact, made, tells⟩⟩
  · rintro ⟨key, hashes, found, told⟩
    obtain ⟨fact, made, tells⟩ := tells_eachHash.mpr told
    exact ⟨fact, List.mem_flatMap.mpr ⟨⟨key, hashes⟩, AList.mem_lookup_iff.mp found, made⟩, tells⟩

theorem tells_key {κ : Type} [DecidableEq κ] {known : AList fun _ : κ => List String} {make : κ → Option String → Fact}
    {key : κ} (listed : key ∈ known) (every : ∀ hash, (make key hash).Tells canonicalUuid atom) :
    Tells canonicalUuid (keyFacts known make) atom := by
  obtain ⟨hashes, found⟩ := Option.isSome_iff_exists.mp (AList.lookup_isSome.mpr listed)
  refine tells_keyFacts.mpr ⟨key, hashes, found, ?_⟩
  cases hashes with
  | nil => exact Or.inl ⟨rfl, every none⟩
  | cons hash rest => exact Or.inr ⟨hash, List.mem_cons_self, every _⟩

theorem tells_value {κ : Type} [DecidableEq κ] {known : AList fun _ : κ => List String} {make : κ → Option String → Fact}
    {key : κ} {hash : String} (has : HasValue known key hash) (tells : (make key (some hash)).Tells canonicalUuid atom) :
    Tells canonicalUuid (keyFacts known make) atom := by
  obtain ⟨hashes, found, listed⟩ := has
  exact tells_keyFacts.mpr ⟨key, hashes, found, Or.inr ⟨hash, listed, tells⟩⟩

theorem key_of_lookup {κ ν : Type} [DecidableEq κ] {known : AList fun _ : κ => ν} {key : κ} {value : ν}
    (found : known.lookup key = some value) : key ∈ known := AList.lookup_isSome.mp (by rw [found]; rfl)

theorem all_eq (facts : Facts canonicalUuid) : facts.all =
    (if facts.crossing then [Fact.crossing] else []) ++
    keyFacts facts.acquisitions (fun id contentHash => .acquisition id contentHash (id ∈ facts.files)) ++
    keyFacts facts.entries (fun key representationHash => .contextEntry key.1 key.2 representationHash) ++
    facts.outputsByGeneration.entries.map (fun entry => .output (some entry.1) none entry.2) ++
    facts.outputsById.entries.map (fun entry => .output none (some entry.1) entry.2) ++
    facts.completed.map .completed ++ facts.actions.map .action := rfl

theorem knows_of_all {fact : Fact} (listed : fact ∈ facts.all) (tells : fact.Tells canonicalUuid atom) : facts.Knows atom := by
  rw [all_eq] at listed
  simp only [List.mem_append] at listed
  rcases listed with (((((crossing | acquisition) | entry) | generation) | output) | completed) | action
  · split at crossing
    · rename_i known
      obtain rfl := List.mem_singleton.mp crossing
      cases atom with
      | crossing => exact known
      | _ => exact tells.elim
    · cases crossing
  · obtain ⟨id, hashes, found, told⟩ := tells_keyFacts.mp ⟨fact, acquisition, tells⟩
    have known := key_of_lookup found
    rcases told with ⟨rfl, tells⟩ | ⟨hash, held, tells⟩
    · cases atom with
      | acquisition other =>
        obtain rfl : other = id := tells
        exact known
      | content other hash => cases tells.2
      | file other =>
        obtain ⟨file, rfl⟩ := tells
        have listed : other ∈ facts.files := of_decide_eq_true file
        exact listed
      | _ => exact tells.elim
    · cases atom with
      | acquisition other =>
        obtain rfl : other = id := tells
        exact known
      | content other given =>
        obtain ⟨rfl, same⟩ := tells
        exact ⟨hashes, found, Option.some.inj same ▸ held⟩
      | file other =>
        obtain ⟨file, rfl⟩ := tells
        have listed : other ∈ facts.files := of_decide_eq_true file
        exact listed
      | _ => exact tells.elim
  · obtain ⟨key, hashes, found, told⟩ := tells_keyFacts.mp ⟨fact, entry, tells⟩
    have known := key_of_lookup found
    rcases told with ⟨rfl, tells⟩ | ⟨hash, held, tells⟩
    · cases atom with
      | entry other another =>
        obtain rfl : (other, another) = key := tells
        exact known
      | representation other another hash => cases tells.2
      | _ => exact tells.elim
    · cases atom with
      | entry other another =>
        obtain rfl : (other, another) = key := tells
        exact known
      | representation other another given =>
        obtain ⟨same, is⟩ := tells
        obtain rfl : (other, another) = key := same
        exact ⟨hashes, found, Option.some.inj is ▸ held⟩
      | _ => exact tells.elim
  · obtain ⟨⟨key, first⟩, entry, rfl⟩ := List.mem_map.mp generation
    cases atom with
    | generation other by_ => exact ⟨first, AList.mem_lookup_iff.mpr (Option.some.inj tells.1 ▸ entry), tells.2⟩
    | output other by_ => cases tells.1
    | _ => exact tells.elim
  · obtain ⟨⟨key, first⟩, entry, rfl⟩ := List.mem_map.mp output
    cases atom with
    | output other by_ => exact ⟨first, AList.mem_lookup_iff.mpr (Option.some.inj tells.1 ▸ entry), tells.2⟩
    | generation other by_ => cases tells.1
    | _ => exact tells.elim
  · obtain ⟨turn, listed, rfl⟩ := List.mem_map.mp completed
    cases atom with
    | completed other => exact tells.2 ▸ listed
    | _ => exact tells.elim
  · obtain ⟨id, listed, rfl⟩ := List.mem_map.mp action
    cases atom with
    | action other =>
      obtain rfl : other = id := tells
      exact listed
    | _ => exact tells.elim

theorem tells_all : Tells canonicalUuid facts.all atom ↔ facts.Knows atom := by
  constructor
  · rintro ⟨fact, listed, tells⟩
    exact knows_of_all listed tells
  · intro knows
    rw [all_eq]
    simp only [tells_append]
    cases atom with
    | crossing =>
      have known : facts.crossing = true := knows
      simp [known, Tells, Fact.Tells]
    | acquisition id =>
      have told : Tells canonicalUuid (keyFacts facts.acquisitions fun id contentHash =>
          .acquisition id contentHash (id ∈ facts.files)) (.acquisition id) := tells_key knows fun _ => rfl
      simp [told]
    | content id hash =>
      have told : Tells canonicalUuid (keyFacts facts.acquisitions fun id contentHash =>
          .acquisition id contentHash (id ∈ facts.files)) (.content id hash) := tells_value knows ⟨rfl, rfl⟩
      simp [told]
    | file id =>
      have told : Tells canonicalUuid (keyFacts facts.acquisitions fun id contentHash =>
          .acquisition id contentHash (id ∈ facts.files)) (.file id) :=
        tells_key (facts.filed id knows) fun _ => ⟨decide_eq_true knows, rfl⟩
      simp [told]
    | entry acquisition generation =>
      have told : Tells canonicalUuid (keyFacts facts.entries fun key representationHash =>
          .contextEntry key.1 key.2 representationHash) (.entry acquisition generation) := tells_key knows fun _ => rfl
      simp [told]
    | representation acquisition generation hash =>
      have told : Tells canonicalUuid (keyFacts facts.entries fun key representationHash =>
          .contextEntry key.1 key.2 representationHash) (.representation acquisition generation hash) :=
        tells_value knows ⟨rfl, rfl⟩
      simp [told]
    | generation generation by_ =>
      obtain ⟨first, found, le⟩ := knows
      have told : Tells canonicalUuid (facts.outputsByGeneration.entries.map fun entry =>
          .output (some entry.1) none entry.2) (.generation generation by_) :=
        ⟨_, List.mem_map.mpr ⟨⟨generation, first⟩, AList.mem_lookup_iff.mp found, rfl⟩, rfl, le⟩
      simp [told]
    | output output by_ =>
      obtain ⟨first, found, le⟩ := knows
      have told : Tells canonicalUuid (facts.outputsById.entries.map fun entry =>
          .output none (some entry.1) entry.2) (.output output by_) :=
        ⟨_, List.mem_map.mpr ⟨⟨output, first⟩, AList.mem_lookup_iff.mp found, rfl⟩, rfl, le⟩
      simp [told]
    | completed turn =>
      have told : Tells canonicalUuid (facts.completed.map .completed) (.completed turn) :=
        ⟨_, List.mem_map.mpr ⟨turn, knows, rfl⟩, facts.asked turn knows, rfl⟩
      simp [told]
    | action id =>
      have told : Tells canonicalUuid (facts.actions.map .action) (.action id) :=
        ⟨_, List.mem_map.mpr ⟨id, knows, rfl⟩, rfl⟩
      simp [told]

end

end CommonMeasure.Observation
