import CommonMeasure.Observation.Facts

namespace CommonMeasure.Observation

open Json

def VERSION : Nat := 2

def TAIL : Nat := 4096

/-- What the log's bytes `from_` to `through` established. -/
structure Entry where
  v : Nat
  from_ : Nat
  through : Nat
  tail : String
  facts : List Fact

/-! ### Writing -/

def orNull : Option String → Value
  | some value => .string value
  | none => .null

def Fact.members : Fact → List (String × Value)
  | .crossing => [("fact", .string "crossing")]
  | .acquisition id contentHash file =>
    [("fact", .string "acquisition"), ("id", .string id), ("content_hash", orNull contentHash)] ++
      if file then [("file", .bool true)] else []
  | .contextEntry handle run representationHash =>
    [("fact", .string "context_entry"), ("acquisition", .string handle), ("generation", .string run),
      ("representation_hash", orNull representationHash)]
  | .output run made at_ =>
    [("fact", .string "output"), ("generation", orNull run), ("output", orNull made), ("at", .number (.ofNat at_))]
  | .completed turn => [("fact", .string "completed"), ("turn", .string turn)]
  | .action id => [("fact", .string "action"), ("id", .string id)]

def Entry.members (entry : Entry) : List (String × Value) :=
  [("v", .number (.ofNat entry.v)), ("from", .number (.ofNat entry.from_)), ("through", .number (.ofNat entry.through)),
    ("tail", .string entry.tail), ("facts", .array (entry.facts.map fun fact => .object fact.members))]

def Entry.line (entry : Entry) : Bytes := write (.object entry.members)

def optionalText (members : List (String × Value)) (name : String) : Option (Option String) :=
  match Json.optional members name with
  | some none => some none
  | some (some value) => value.asStr.map some
  | none => none

def onlyFields (members : List (String × Value)) (names : List String) : Bool := members.all fun member => member.1 ∈ names

def Fact.ofMembers (members : List (String × Value)) : Option Fact := do
  match ← text members "fact" with
  | "crossing" =>
    guard (onlyFields members ["fact"])
    some .crossing
  | "acquisition" =>
    guard (onlyFields members ["fact", "id", "content_hash", "file"])
    let id ← text members "id"
    let contentHash ← optionalText members "content_hash"
    match members.filter fun member => member.1 = "file" with
    | [] => some (.acquisition id contentHash false)
    | [(_, .bool file)] => some (.acquisition id contentHash file)
    | _ => none
  | "context_entry" =>
    guard (onlyFields members ["fact", "acquisition", "generation", "representation_hash"])
    some (.contextEntry (← text members "acquisition") (← text members "generation")
      (← optionalText members "representation_hash"))
  | "output" =>
    guard (onlyFields members ["fact", "generation", "output", "at"])
    some (.output (← optionalText members "generation") (← optionalText members "output")
      (← (← field members "at").asU64))
  | "completed" =>
    guard (onlyFields members ["fact", "turn"])
    some (.completed (← text members "turn"))
  | "action" =>
    guard (onlyFields members ["fact", "id"])
    some (.action (← text members "id"))
  | _ => none

def Fact.ofValue : Value → Option Fact
  | .object members => Fact.ofMembers members
  | _ => none

def Entry.ofValue : Value → Option Entry
  | .object members => do
    guard (onlyFields members ["v", "from", "through", "tail", "facts"])
    let v ← (← field members "v").asU64
    guard (v < 2 ^ 32)
    let from_ ← (← field members "from").asU64
    let through ← (← field members "through").asU64
    let tail ← text members "tail"
    match ← field members "facts" with
    | .array items => some ⟨v, from_, through, tail, ← items.mapM Fact.ofValue⟩
    | _ => none
  | _ => none

def Entry.ofLine (J : Reader) (line : Bytes) : Option Entry := (J.fromSlice line).bind Entry.ofValue

structure Account (canonicalUuid : String → Bool) where
  offset : Nat
  tail : Option String
  facts : Facts canonicalUuid
  entries : Nat

section

variable {canonicalUuid : String → Bool}

instance : Inhabited (Account canonicalUuid) := ⟨⟨0, none, default, 0⟩⟩

def Account.take (account : Account canonicalUuid) (entry : Entry) : Option (Account canonicalUuid) :=
  if entry.v ≠ VERSION ∨ account.offset < entry.from_ ∨ entry.through < entry.from_ then none
  else
    let facts := (account.facts.applyAll entry.facts).1
    if account.offset < entry.through ∨ account.tail = none then
      some ⟨max entry.through account.offset, some entry.tail, facts, account.entries + 1⟩
    else some { account with facts, entries := account.entries + 1 }

def Account.takeAll (J : Reader) (account : Account canonicalUuid) : List Bytes → Option (Account canonicalUuid)
  | [] => some account
  | line :: rest => ((Entry.ofLine J line).bind account.take).bind fun account => account.takeAll J rest

/-- The journal's account, or nothing if any line of it is not an entry that continues the ones before it. -/
def readJournal (J : Reader) (canonicalUuid : String → Bool) (bytes : Bytes) : Option (Account canonicalUuid) :=
  if (splitLines bytes).2 = [] then
    ((default : Account canonicalUuid).takeAll J (splitLines bytes).1).filter fun account => account.tail.isSome
  else none

end

def Fact.Small : Fact → Prop
  | .output _ _ at_ => at_ < 2 ^ 64
  | _ => True

theorem ofMembers_members {fact : Fact} (small : fact.Small) : Fact.ofMembers fact.members = some fact := by
  cases fact with
  | crossing => rfl
  | acquisition id contentHash file => cases contentHash <;> cases file <;> rfl
  | contextEntry handle run representationHash => cases representationHash <;> rfl
  | output run made at_ =>
    have read := asU64_ofNat small
    cases run <;> cases made <;>
      simp [Fact.members, Fact.ofMembers, text, field, Json.optional, optionalText, onlyFields, orNull, Value.asStr, read,
        guard]
  | completed turn => rfl
  | action id => rfl

theorem ofValue_members {entry : Entry} (v : entry.v < 2 ^ 32) (from_ : entry.from_ < 2 ^ 64) (through : entry.through < 2 ^ 64)
    (small : ∀ fact ∈ entry.facts, fact.Small) : Entry.ofValue (.object entry.members) = some entry := by
  have facts : (entry.facts.map fun fact => Value.object fact.members).mapM Fact.ofValue = some entry.facts := by
    generalize entry.facts = facts at small
    induction facts with
    | nil => rfl
    | cons fact rest ih =>
      rw [List.forall_mem_cons] at small
      simp [Fact.ofValue, ofMembers_members small.1, ih small.2]
  have narrow : entry.v < 4294967296 := v
  simp [Entry.ofValue, Entry.members, text, field, onlyFields, Value.asStr, asU64_ofNat from_, asU64_ofNat through,
    asU64_ofNat (v.trans (by decide)), narrow, facts, guard]

theorem orNull_holds (J : Reader) (value : Option String) : J.Holds (orNull value) := by
  cases value with
  | none => exact J.holds_null
  | some value => exact J.holds_string value

theorem Fact.members_holds (J : Reader) {fact : Fact} (small : fact.Small) : J.Holds (.object fact.members) := by
  apply J.holds_object
  · cases fact with
    | acquisition id contentHash file => cases file <;> simp [Fact.members]
    | _ => simp [Fact.members]
  · cases fact with
    | acquisition id contentHash file =>
      cases file <;> simp [Fact.members, J.holds_string, orNull_holds, J.holds_bool]
    | output run made at_ => simp [Fact.members, J.holds_string, orNull_holds, J.holds_number at_ small]
    | _ => simp [Fact.members, J.holds_string, orNull_holds]

theorem Entry.members_holds (J : Reader) {entry : Entry} (v : entry.v < 2 ^ 32) (from_ : entry.from_ < 2 ^ 64)
    (through : entry.through < 2 ^ 64) (small : ∀ fact ∈ entry.facts, fact.Small) : J.Holds (.object entry.members) := by
  have facts : J.Holds (.array (entry.facts.map fun fact => .object fact.members)) := by
    apply J.holds_array
    intro item listed
    obtain ⟨fact, member, rfl⟩ := List.mem_map.mp listed
    exact fact.members_holds J (small fact member)
  apply J.holds_object
  · simp [Entry.members]
  · simp [Entry.members, J.holds_string, J.holds_number _ from_, J.holds_number _ through,
      J.holds_number _ (v.trans (by decide)), facts]

theorem Fact.members_depth (fact : Fact) : depthMembers fact.members = 0 := by
  cases fact with
  | acquisition id contentHash file => cases contentHash <;> cases file <;> rfl
  | contextEntry handle run representationHash => cases representationHash <;> rfl
  | output run made at_ => cases run <;> cases made <;> rfl
  | _ => rfl

theorem Entry.members_depth (entry : Entry) : (Value.object entry.members).depth ≤ recursionLimit := by
  have facts : depthItems (entry.facts.map fun fact => .object fact.members) ≤ 1 := by
    induction entry.facts with
    | nil => simp [depthItems]
    | cons fact rest ih => simp [depthItems, Value.depth, fact.members_depth, ih]
  simp [Entry.members, Value.depth, depthMembers, recursionLimit]
  omega

structure Entry.Plain (entry : Entry) : Prop where
  v : entry.v = VERSION
  from_ : entry.from_ < 2 ^ 64
  through : entry.through < 2 ^ 64
  small : ∀ fact ∈ entry.facts, fact.Small

theorem Entry.Plain.ofLine {entry : Entry} (plain : entry.Plain) (J : Reader) : Entry.ofLine J entry.line = some entry := by
  have v : entry.v < 2 ^ 32 := by
    rw [plain.v]
    decide
  unfold Entry.ofLine Entry.line
  rw [J.read_write _ (entry.members_holds J v plain.from_ plain.through plain.small), if_pos entry.members_depth]
  exact ofValue_members v plain.from_ plain.through plain.small

section

variable {canonicalUuid : String → Bool} {facts : Facts canonicalUuid}

structure Facts.Small (facts : Facts canonicalUuid) : Prop where
  byGeneration : ∀ {generation at_}, facts.outputsByGeneration.lookup generation = some at_ → at_ < 2 ^ 64
  byId : ∀ {output at_}, facts.outputsById.lookup output = some at_ → at_ < 2 ^ 64

theorem small_default : (default : Facts canonicalUuid).Small where
  byGeneration found := by cases found
  byId found := by cases found

theorem Facts.Small.apply (small : facts.Small) {fact : Fact} (fits : fact.Small) : (facts.apply fact).1.Small := by
  cases fact with
  | output generation output at_ =>
    constructor
    · intro other first found
      rcases lookup_earliest found with before | rfl
      · exact small.byGeneration before
      · exact fits
    · intro other first found
      rcases lookup_earliest found with before | rfl
      · exact small.byId before
      · exact fits
  | completed turn =>
    unfold Facts.apply
    dsimp only
    split <;> exact ⟨small.byGeneration, small.byId⟩
  | _ => exact ⟨small.byGeneration, small.byId⟩

theorem Facts.Small.applyAll (small : facts.Small) {fresh : List Fact} (fits : ∀ fact ∈ fresh, fact.Small) :
    (facts.applyAll fresh).1.Small := by
  induction fresh generalizing facts with
  | nil => exact small
  | cons fact rest ih =>
    rw [List.forall_mem_cons] at fits
    exact ih (small.apply fits.1) fits.2

theorem small_all (small : facts.Small) : ∀ fact ∈ facts.all, fact.Small := by
  intro fact listed
  rw [all_eq] at listed
  simp only [List.mem_append, keyFacts, List.mem_flatMap, List.mem_map] at listed
  rcases listed with (((((crossing | acquisition) | entry) | generation) | output) | completed) | action
  · split at crossing
    · rw [List.mem_singleton.mp crossing]
      trivial
    · cases crossing
  · obtain ⟨_, _, _, _, rfl⟩ := acquisition
    trivial
  · obtain ⟨_, _, _, _, rfl⟩ := entry
    trivial
  · obtain ⟨⟨key, at_⟩, entry, rfl⟩ := generation
    exact small.byGeneration (AList.mem_lookup_iff.mpr entry)
  · obtain ⟨⟨key, at_⟩, entry, rfl⟩ := output
    exact small.byId (AList.mem_lookup_iff.mpr entry)
  · obtain ⟨_, _, rfl⟩ := completed
    trivial
  · obtain ⟨_, _, rfl⟩ := action
    trivial

end

/-- Every line of the journal is the line of an entry of that kind, or none at all, and a line cut short has begun. -/
structure Holds (J : Reader) (kind : Entry → Prop) (file : Bytes) : Prop where
  lines : ∀ line ∈ (splitLines file).1, (∃ entry, kind entry ∧ line = Entry.line entry) ∨ J.fromSlice line = none
  begun : (splitLines file).2 = [] ∨ ∃ b ∈ (splitLines file).2, isSpace b = false

section

variable {J : Reader} {kind : Entry → Prop} {file : Bytes} {entry : Entry}

theorem holds_nil : Holds J kind [] where
  lines line listed := by cases listed
  begun := Or.inl rfl

theorem Holds.mono {wider : Entry → Prop} (holds : Holds J kind file) (widen : ∀ entry, kind entry → wider entry) :
    Holds J wider file where
  lines line listed := (holds.lines line listed).imp_left fun ⟨entry, is, same⟩ => ⟨entry, widen entry is, same⟩
  begun := holds.begun

theorem line_free (entry : Entry) : LineFree entry.line := write_lineFree _

theorem line_glued {before : Bytes} (begun : ∃ b ∈ before, isSpace b = false) (entry : Entry) :
    J.fromSlice (before ++ entry.line) = none :=
  J.read_glued before "v" _ _ ⟨118, [], by decide +kernel, by decide, by decide⟩ begun

theorem Holds.append (holds : Holds J kind file) (is : kind entry) : Holds J kind (file ++ (entry.line ++ [newline])) := by
  have free := (splitLines_free file).2
  have split : splitLines ((splitLines file).2 ++ (entry.line ++ [newline])) = ([(splitLines file).2 ++ entry.line], []) := by
    rw [← List.append_assoc]
    exact splitLines_line (lineFree_append.mpr ⟨free, line_free entry⟩) []
  constructor
  · intro line listed
    rw [splitLines_resume, split] at listed
    rcases List.mem_append.mp listed with before | new
    · exact holds.lines line before
    · rw [List.mem_singleton.mp new]
      rcases holds.begun with whole | begun
      · rw [whole]
        exact Or.inl ⟨entry, is, rfl⟩
      · exact Or.inr (line_glued begun entry)
  · rw [splitLines_resume, split]
    exact Or.inl rfl

theorem Holds.cut (holds : Holds J kind file) (entry : Entry) {part : Bytes} (prefixed : part <+: entry.line) :
    Holds J kind (file ++ part) := by
  have free : LineFree ((splitLines file).2 ++ part) :=
    lineFree_append.mpr ⟨(splitLines_free file).2, (line_free entry).cut prefixed⟩
  have split := splitLines_tail free
  constructor
  · intro line listed
    rw [splitLines_resume, split, List.append_nil] at listed
    exact holds.lines line listed
  · rw [splitLines_resume, split]
    rcases holds.begun with whole | ⟨b, listed, token⟩
    · rw [whole, List.nil_append]
      cases part with
      | nil => exact Or.inl rfl
      | cons b rest =>
        right
        obtain ⟨more, same⟩ := prefixed
        have first : b = 123 := (List.cons.inj same).1
        exact ⟨b, List.mem_cons_self, first ▸ by decide⟩
    · exact Or.inr ⟨b, List.mem_append_left _ listed, token⟩

theorem Holds.take (holds : Holds J kind file) (is : kind entry) (bytes : Nat) :
    Holds J kind (file ++ (entry.line ++ [newline]).take bytes) := by
  by_cases short : bytes ≤ entry.line.length
  · rw [List.take_append_of_le_length short]
    exact holds.cut entry (List.take_prefix _ _)
  · rw [List.take_of_length_le (by simp; omega)]
    exact holds.append is

variable {canonicalUuid : String → Bool} {kept : Account canonicalUuid → Prop}

theorem Account.takeAll_keeps (plain : ∀ entry, kind entry → entry.Plain)
    (keeps : ∀ account next entry, kept account → kind entry → account.take entry = some next → kept next)
    {account next : Account canonicalUuid} (start : kept account) {lines : List Bytes}
    (are : ∀ line ∈ lines, (∃ entry : Entry, kind entry ∧ line = entry.line) ∨ J.fromSlice line = none)
    (taken : account.takeAll J lines = some next) : kept next := by
  induction lines generalizing account with
  | nil =>
    obtain rfl := Option.some.inj taken
    exact start
  | cons line rest ih =>
    rw [List.forall_mem_cons] at are
    unfold Account.takeAll at taken
    obtain ⟨after, took, later⟩ := Option.bind_eq_some_iff.mp taken
    obtain ⟨entry, read, one⟩ := Option.bind_eq_some_iff.mp took
    rcases are.1 with ⟨written, is, rfl⟩ | unread
    · rw [(plain written is).ofLine J] at read
      obtain rfl := Option.some.inj read
      exact ih (keeps account after written start is one) are.2 later
    · simp [Entry.ofLine, unread] at read

theorem Holds.read_keeps (holds : Holds J kind file) (plain : ∀ entry, kind entry → entry.Plain)
    (keeps : ∀ account next entry, kept account → kind entry → account.take entry = some next → kept next)
    (start : kept default) {bytes : Nat} {account : Account canonicalUuid}
    (usable : readJournal J canonicalUuid (file.take bytes) = some account) : kept account := by
  unfold readJournal at usable
  split at usable
  · obtain ⟨taken, _⟩ := Option.filter_eq_some_iff.mp usable
    refine Account.takeAll_keeps plain keeps start ?_ taken
    intro line listed
    exact holds.lines line ((splitLines_cut (List.take_prefix bytes file)).subset listed)
  · cases usable

theorem Account.take_small {account next : Account canonicalUuid} (small : account.facts.Small) (plain : entry.Plain)
    (taken : account.take entry = some next) : next.facts.Small := by
  have fits := small.applyAll plain.small
  unfold Account.take at taken
  split at taken
  · cases taken
  · split at taken <;> obtain rfl := Option.some.inj taken <;> exact fits

end

end CommonMeasure.Observation
