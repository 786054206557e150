import CommonMeasure.Artifact.Schema

/-!
# Portable bundles

What a bundle must hold for its snapshot: the identity, every association and every evidence byte the snapshot names, by
digest.
-/

namespace CommonMeasure.Artifact

open Json

def SAFE : Nat := 9007199254740991

section

variable {Uuid : Type} (L : Libraries Uuid)

/-! ### Values -/

/-- An integer's digits without its sign, where `i64` holds it. -/
def magnitude (n : Number) : Option Nat :=
  match n.text with
  | 45 :: rest => if rest.all isDigit ∧ digitsValue rest ≤ 2 ^ 63 then some (digitsValue rest) else none
  | digits => if digits.all isDigit ∧ digitsValue digits < 2 ^ 64 then some (digitsValue digits) else none

def isSafe (n : Number) : Bool := (magnitude n).all (· ≤ SAFE) && L.moderate n

mutual

def walk : Nat → Value → Except String Unit
  | depth, value =>
    if 64 < depth then .error "JSON nesting exceeds 64 levels"
    else match value with
    | .number n => refuse (!isSafe L n) "number exceeds the I-JSON safe range"
    | .array items => walkItems (depth + 1) items
    | .object members => walkMembers (depth + 1) members
    | .null | .bool _ | .string _ => .ok ()

def walkItems : Nat → List Value → Except String Unit
  | _, [] => .ok ()
  | depth, item :: more => do
    walk depth item
    walkItems depth more

def walkMembers : Nat → List (String × Value) → Except String Unit
  | _, [] => .ok ()
  | depth, (_, value) :: more => do
    walk depth value
    walkMembers depth more

end

def validate (value : Value) : Except String Unit := walk L 0 value

mutual

def strict : Value → Except String Unit
  | .number n => refuse (!isSafe L n) "number exceeds the I-JSON safe range"
  | .array items => strictItems items
  | .object members => strictMembers [] members
  | .null | .bool _ | .string _ => .ok ()

def strictItems : List Value → Except String Unit
  | [] => .ok ()
  | item :: more => do
    strict item
    strictItems more

def strictMembers : List String → List (String × Value) → Except String Unit
  | _, [] => .ok ()
  | names, (name, value) :: more => do
    refuse (name ∈ names) ("duplicate JSON member: " ++ name)
    strict value
    strictMembers (name :: names) more

end

def parse (bytes : Bytes) : Except String Value :=
  match L.from_slice bytes with
  | .error e => .error ("invalid artifact JSON: " ++ e)
  | .ok value =>
    match strict L value with
    | .error e => .error ("invalid artifact JSON: " ++ e)
    | .ok () => .ok value

def canonical_digest (value : Value) : String := L.sha256_digest (canonical_json L.write_number value)

def hasMember (value : Value) (name : String) : Bool := (membersOf value).any (·.1 = name)

def sessionIds (record : Value) : List Value :=
  (if hasMember record "session_id" then [record.get "session_id"] else []) ++
    if hasMember (record.get "payload") "session_id" then [(record.get "payload").get "session_id"] else []

def evidenceLine (session : String) (line : Bytes) : Except String Unit := do
  let record ← parse L line
  validate L record
  refuse (!(record matches .object _)) "evidence record must be an object"
  refuse (sessionIds record = []) "every evidence record must identify its session_id"
  refuse ((sessionIds record).any fun id => id.asStr ≠ some session)
    "evidence session_id does not match its association"

def evidenceLines (session : String) : Nat → List Bytes → Except String Nat
  | count, [] => .ok count
  | count, line :: rest => do
    refuse (line = [] || MAX_LINE_BYTES < line.length || 100000 < count + 1)
      "evidence exceeds line/count bounds or contains an empty line"
    evidenceLine L session line
    evidenceLines session (count + 1) rest

def ndjsonLines (bytes : Bytes) : List Bytes := bytes.dropLast.splitOn newline

def ndjson (bytes : Bytes) (session : String) : Except String Nat := do
  refuse (bytes = [] || MAX_EVIDENCE_BYTES < bytes.length || bytes.getLast? ≠ some newline)
    "evidence must contain a nonempty bounded prefix ending in a newline"
  refuse (fromUtf8 bytes).isNone "evidence must be UTF-8"
  evidenceLines L session 0 (ndjsonLines bytes)

def bundleAssociations : String → List Value → Except String (List (String × Value))
  | _, [] => .ok []
  | previous, a :: rest => do
    association L a
    let id ← text a "record_id"
    refuse (id ≤ previous) "bundle associations must be unique and sorted by record_id"
    let more ← bundleAssociations id rest
    .ok ((id, a) :: more)

def bundleEvidence : String → Nat → List Value → Except String (List (String × Bytes))
  | _, _, [] => .ok []
  | previous, total, e :: rest => do
    fields e ["digest", "bytes"] []
    let named ← text e "digest"
    digest named
    refuse (named ≤ previous) "bundle evidence must be unique and sorted by digest"
    match (e.get "bytes").asStr with
    | none => .error "evidence bytes must be a UTF-8 string"
    | some held =>
      refuse (MAX_EVIDENCE_BYTES < byteLength held || MAX_TOTAL_EVIDENCE_BYTES < total + byteLength held)
        "bundle evidence exceeds byte limits"
      let more ← bundleEvidence named (total + byteLength held) rest
      .ok ((named, utf8 held) :: more)

def found {α : Type} (entries : List (String × α)) (key : String) : Option α := (entries.find? (·.1 = key)).map Prod.snd

def associationsMatch (snapshot : Value) (associations : List (String × Value)) : List Value → Except String Bool
  | [] => .ok true
  | reference :: rest => do
    let id ← text reference "record_id"
    let met := (found associations id).any fun a =>
      (a.get "artifact_id").asStr = (snapshot.get "artifact_id").asStr &&
        some (canonical_digest L a) = (reference.get "digest").asStr
    let more ← associationsMatch snapshot associations rest
    .ok (met && more)

def evidenceMatches (associations : List (String × Value)) (held : List (String × Bytes)) (reference : Value)
    (named id : String) : Except String Bool :=
  match found associations id, found held named with
  | some association, some bytes => do
    let session ← text (association.get "session") "id"
    .ok (L.sha256_digest bytes = named && ((reference.get "coverage").get "log_id").asStr = some session &&
      ((reference.get "coverage").get "end").asU64 = some bytes.length &&
        match ndjson L bytes session with
        | .ok count => ((reference.get "coverage").get "record_count").asU64 = some count
        | .error _ => false)
  | _, _ => .ok false

def evidenceUsed (associations : List (String × Value)) (held : List (String × Bytes)) :
    List String → List Value → Except String (Bool × List String)
  | _, [] => .ok (true, [])
  | selected, reference :: rest => do
    let named ← text reference "digest"
    let id ← text reference "association_id"
    refuse (id ∈ selected) "multiple evidence prefixes for one association are unsupported"
    let met ← evidenceMatches L associations held reference named id
    let more ← evidenceUsed associations held (id :: selected) rest
    .ok (met && more.1, named :: more.2)

structure Integrity where
  valid : Bool
  checks : Value
  digest : String

def BUNDLE_FIELDS : List String :=
  ["record_version", "kind", "identity", "associations", "snapshot", "snapshot_digest", "evidence"]

def status (valid : Bool) : Value := .object [("valid", .bool valid)]

def checkPin : Option String → Except String Unit
  | some pin => digest pin
  | none => .ok ()

def bundle_integrity (bundle : Value) (expected : Option String) : Except String Integrity := do
  validate L bundle
  refuse (MAX_JSON_BYTES < (canonical_json L.write_number bundle).length) "bundle exceeds 32 MiB JSON limit"
  fields bundle BUNDLE_FIELDS []
  equal bundle "record_version" VERSION
  equal bundle "kind" "bundle"
  identity L (bundle.get "identity")
  let snapshot := bundle.get "snapshot"
  Artifact.snapshot L snapshot
  digest (← text bundle "snapshot_digest")
  checkPin expected
  let actual := canonical_digest L snapshot
  let snapshot_ok : Bool := (bundle.get "snapshot_digest").asStr = some actual
  let pin_ok : Bool := expected.all (· = actual)
  let identity_ok : Bool := some (canonical_digest L (bundle.get "identity")) = (snapshot.get "identity_digest").asStr &&
    ((bundle.get "identity").get "artifact_id").asStr = (snapshot.get "artifact_id").asStr
  let associations ← bundleAssociations L "" (← array bundle "associations" MAX_ASSOCIATIONS)
  let references ← array snapshot "associations" MAX_ASSOCIATIONS
  let met ← associationsMatch L snapshot associations references
  let association_ok : Bool := references.length = associations.length && met
  let held ← bundleEvidence "" 0 (← array bundle "evidence" MAX_ASSOCIATIONS)
  let evidence_refs ← array snapshot "evidence" MAX_ASSOCIATIONS
  let used ← evidenceUsed L associations held [] evidence_refs
  let evidence_ok : Bool := used.1 && used.2.dedup.length = held.length && used.2.all fun named => (found held named).isSome
  let inventory_ok : Bool := ((snapshot.get "content").get "scope").asStr ≠ some "repo-inventory/1" ||
    some (canonical_digest L ((snapshot.get "content").get "inventory")) = ((snapshot.get "content").get "digest").asStr
  .ok {
    valid := snapshot_ok && pin_ok && identity_ok && association_ok && evidence_ok && inventory_ok
    digest := actual
    checks := .object [("snapshot_digest", status snapshot_ok),
      ("expected_snapshot", .object [("status", .string (if expected.isSome then "checked" else "not_supplied")),
        ("valid", .bool pin_ok)]),
      ("identity", status identity_ok),
      ("associations", .object [("valid", .bool association_ok), ("count", .number (.ofNat references.length))]),
      ("evidence", .object [("valid", .bool evidence_ok), ("status", .string (
        if evidence_refs = [] && held = [] then "not_recorded" else if evidence_ok then "matched" else "mismatch"))]),
      ("inventory_digest", status inventory_ok)] }

variable {L}

def textOf (key : String) (value : Value) : String := (value.get key).asStr.getD ""

theorem textOf_of_ok {value : Value} {key s : String} (passed : text value key = .ok s) : textOf key value = s := by
  rw [textOf, (text_ok passed).1]
  rfl

theorem pairwise_after {previous id : String} {ids : List String} (after : previous < id)
    (sorted : (id :: ids).Pairwise (· < ·)) : (previous :: id :: ids).Pairwise (· < ·) := by
  refine List.pairwise_cons.mpr ⟨fun other listed => ?_, sorted⟩
  rcases List.mem_cons.mp listed with rfl | listed
  · exact after
  · exact String.lt_trans after ((List.pairwise_cons.mp sorted).1 other listed)

theorem associationReferences_ok {previous : String} {references : List Value} {u : Unit}
    (passed : associationReferences L previous references = .ok u) :
    (previous :: references.map (textOf "record_id")).Pairwise (· < ·) := by
  induction references generalizing previous with
  | nil => exact List.pairwise_singleton _ _
  | cons a rest ih =>
    simp only [associationReferences, bind_ok, refuse_ok, decide_eq_false_iff_not, String.not_le] at passed
    obtain ⟨_, _, id, named, _, _, _, _, _, _, _, after, rest_⟩ := passed
    have later := ih rest_
    rw [List.map_cons, textOf_of_ok named]
    exact pairwise_after after later

theorem bundleAssociations_ok {previous : String} {items : List Value} {entries : List (String × Value)}
    (passed : bundleAssociations L previous items = .ok entries) :
    entries = items.map (fun a => (textOf "record_id" a, a)) ∧
      (previous :: items.map (textOf "record_id")).Pairwise (· < ·) := by
  induction items generalizing previous entries with
  | nil =>
    cases passed
    exact ⟨rfl, List.pairwise_singleton _ _⟩
  | cons a rest ih =>
    simp only [bundleAssociations, bind_ok, refuse_ok, decide_eq_false_iff_not, String.not_le] at passed
    obtain ⟨_, _, id, named, _, after, more, rest_, done⟩ := passed
    cases done
    obtain ⟨rfl, later⟩ := ih rest_
    rw [List.map_cons, List.map_cons, textOf_of_ok named]
    exact ⟨rfl, pairwise_after after later⟩

theorem bundleEvidence_ok {previous : String} {total : Nat} {items : List Value} {held : List (String × Bytes)}
    (passed : bundleEvidence previous total items = .ok held) :
    held = items.map (fun e => (textOf "digest" e, utf8 (textOf "bytes" e))) ∧
      (previous :: items.map (textOf "digest")).Pairwise (· < ·) ∧
      ∀ e ∈ items, e.get "digest" = .string (textOf "digest" e) ∧ e.get "bytes" = .string (textOf "bytes" e) ∧
        ∃ members, e = .object members ∧ ∀ name, name ∈ members.map Prod.fst ↔ name ∈ ["digest", "bytes"] := by
  induction items generalizing previous total held with
  | nil =>
    cases passed
    exact ⟨rfl, List.pairwise_singleton _ _, by simp⟩
  | cons e rest ih =>
    simp only [bundleEvidence, bind_ok, refuse_ok, decide_eq_false_iff_not, String.not_le] at passed
    obtain ⟨_, shape, named, read, _, _, _, after, passed⟩ := passed
    split at passed
    · cases passed
    rename_i bytes is
    simp only [bind_ok] at passed
    obtain ⟨_, _, more, rest_, done⟩ := passed
    cases done
    obtain ⟨rfl, later, each⟩ := ih rest_
    have string : e.get "bytes" = .string bytes := by
      cases held : e.get "bytes" with
      | string s =>
        rw [held] at is
        rw [Option.some.inj is]
      | _ =>
        rw [held] at is
        cases is
    have bytes_ : textOf "bytes" e = bytes := by rw [textOf, string]; rfl
    rw [List.map_cons, List.map_cons, textOf_of_ok read, bytes_]
    refine ⟨rfl, pairwise_after after later, List.forall_mem_cons.mpr ⟨?_, each⟩⟩
    rw [textOf_of_ok read, bytes_]
    exact ⟨(text_ok read).1, string, fields_ok shape⟩

theorem associationsMatch_ok {snapshot : Value} {associations : List (String × Value)} {references : List Value}
    (passed : associationsMatch L snapshot associations references = .ok true) :
    ∀ r ∈ references, ∃ a, found associations (textOf "record_id" r) = some a ∧
      (a.get "artifact_id").asStr = (snapshot.get "artifact_id").asStr ∧
      some (canonical_digest L a) = (r.get "digest").asStr := by
  induction references with
  | nil => simp
  | cons r rest ih =>
    simp only [associationsMatch, bind_ok, Except.ok.injEq, Bool.and_eq_true] at passed
    obtain ⟨id, named, more, rest_, met, rfl⟩ := passed
    refine List.forall_mem_cons.mpr ⟨?_, ih rest_⟩
    rw [textOf_of_ok named]
    cases is : found associations id with
    | none =>
      rw [is] at met
      cases met
    | some a =>
      rw [is, Option.any_some, Bool.and_eq_true, decide_eq_true_eq, decide_eq_true_eq] at met
      exact ⟨a, rfl, met⟩

theorem evidenceLine_ok {session : String} {line : Bytes} {u : Unit} (passed : evidenceLine L session line = .ok u) :
    ∃ record, parse L line = .ok record ∧ sessionIds record ≠ [] ∧ ∀ id ∈ sessionIds record, id.asStr = some session := by
  simp only [evidenceLine, bind_ok, refuse_ok] at passed
  obtain ⟨record, read, _, _, _, _, _, named, same⟩ := passed
  refine ⟨record, read, by simpa using named, fun id listed => ?_⟩
  simpa using List.any_eq_false.mp same id listed

theorem evidenceLines_ok {session : String} {lines : List Bytes} {from_ count : Nat}
    (passed : evidenceLines L session from_ lines = .ok count) : ∀ line ∈ lines, ∃ record, parse L line = .ok record ∧
      sessionIds record ≠ [] ∧ ∀ id ∈ sessionIds record, id.asStr = some session := by
  induction lines generalizing from_ with
  | nil => simp
  | cons line rest ih =>
    simp only [evidenceLines, bind_ok] at passed
    obtain ⟨_, _, _, here, rest_⟩ := passed
    exact List.forall_mem_cons.mpr ⟨evidenceLine_ok here, ih rest_⟩

theorem ndjson_ok {bytes : Bytes} {session : String} {count : Nat} (passed : ndjson L bytes session = .ok count) :
    ∀ line ∈ ndjsonLines bytes, ∃ record, parse L line = .ok record ∧
      sessionIds record ≠ [] ∧ ∀ id ∈ sessionIds record, id.asStr = some session := by
  simp only [ndjson, bind_ok] at passed
  obtain ⟨_, _, _, _, lines⟩ := passed
  exact evidenceLines_ok lines

structure Met (L : Libraries Uuid) (associations : List (String × Value)) (held : List (String × Bytes)) (reference : Value) :
    Prop where
  evidence : ∃ association bytes session, found associations (textOf "association_id" reference) = some association ∧
    found held (textOf "digest" reference) = some bytes ∧ L.sha256_digest bytes = textOf "digest" reference ∧
    (association.get "session").get "id" = .string session ∧
    ∀ line ∈ ndjsonLines bytes, ∃ record, parse L line = .ok record ∧
      sessionIds record ≠ [] ∧ ∀ id ∈ sessionIds record, id.asStr = some session

theorem evidenceUsed_ok {associations : List (String × Value)} {held : List (String × Bytes)} {references : List Value}
    {selected : List String} {used : Bool × List String}
    (passed : evidenceUsed L associations held selected references = .ok used) (all : used.1 = true) :
    used.2 = references.map (textOf "digest") ∧ ∀ r ∈ references, Met L associations held r := by
  induction references generalizing selected used with
  | nil =>
    cases passed
    exact ⟨rfl, by simp⟩
  | cons r rest ih =>
    simp only [evidenceUsed, bind_ok, refuse_ok, Except.ok.injEq] at passed
    obtain ⟨named, read, id, named_, _, _, met, matched, more, rest_, rfl⟩ := passed
    obtain ⟨rfl, later⟩ := Bool.and_eq_true_iff.mp all
    obtain ⟨is, each⟩ := ih rest_ later
    refine ⟨by rw [List.map_cons, is, textOf_of_ok read], List.forall_mem_cons.mpr ⟨⟨?_⟩, each⟩⟩
    rw [textOf_of_ok read, textOf_of_ok named_]
    unfold evidenceMatches at matched
    split at matched
    · rename_i association bytes a_ b_
      simp only [bind_ok, Except.ok.injEq, Bool.and_eq_true, decide_eq_true_eq] at matched
      obtain ⟨session, spoken, ⟨⟨digest_, _⟩, _⟩, lines⟩ := matched
      refine ⟨association, bytes, session, a_, b_, digest_, (text_ok spoken).1, ?_⟩
      split at lines
      · rename_i count counted
        exact ndjson_ok counted
      · cases lines
    · cases matched

/-- What the check found of a valid bundle: its associations, the snapshot's references to them, its evidence and the
snapshot's references to it. -/
structure Checked (L : Libraries Uuid) (bundle : Value) (pin : String) (listed refs objects uses : List Value) : Prop where
  shape : ∃ members, bundle = .object members ∧ ∀ name, name ∈ members.map Prod.fst ↔ name ∈ BUNDLE_FIELDS
  version : bundle.get "record_version" = .string VERSION
  kind : bundle.get "kind" = .string "bundle"
  digest : pin = canonical_digest L (bundle.get "snapshot")
  stated : bundle.get "snapshot_digest" = .string pin
  identity : some (canonical_digest L (bundle.get "identity")) = ((bundle.get "snapshot").get "identity_digest").asStr
  artifact : ((bundle.get "identity").get "artifact_id").asStr = ((bundle.get "snapshot").get "artifact_id").asStr
  associations : bundle.get "associations" = .array listed
  references : (bundle.get "snapshot").get "associations" = .array refs
  sorted : (listed.map (textOf "record_id")).Pairwise (· < ·)
  ordered : (refs.map (textOf "record_id")).Pairwise (· < ·)
  counted : refs.length = listed.length
  matched : ∀ r ∈ refs, ∃ a, found (listed.map fun a => (textOf "record_id" a, a)) (textOf "record_id" r) = some a ∧
    (a.get "artifact_id").asStr = ((bundle.get "snapshot").get "artifact_id").asStr ∧
    some (canonical_digest L a) = (r.get "digest").asStr
  evidence : bundle.get "evidence" = .array objects
  spoken : (bundle.get "snapshot").get "evidence" = .array uses
  distinct : (objects.map (textOf "digest")).Pairwise (· < ·)
  each : ∀ e ∈ objects, e.get "digest" = .string (textOf "digest" e) ∧ e.get "bytes" = .string (textOf "bytes" e) ∧
    ∃ members, e = .object members ∧ ∀ name, name ∈ members.map Prod.fst ↔ name ∈ ["digest", "bytes"]
  met : ∀ r ∈ uses, Met L (listed.map fun a => (textOf "record_id" a, a))
    (objects.map fun e => (textOf "digest" e, utf8 (textOf "bytes" e))) r
  used : (uses.map (textOf "digest")).dedup.length = objects.length

theorem snapshot_references {snapshot : Value} {u : Unit} (passed : Artifact.snapshot L snapshot = .ok u) :
    ∃ references, snapshot.get "associations" = .array references ∧
      (references.map (textOf "record_id")).Pairwise (· < ·) := by
  simp only [Artifact.snapshot, bind_ok] at passed
  obtain ⟨_, _, _, _, _, _, _, _, _, _, _, _, _, _, _, _, references, listed, _, ordered, _⟩ := passed
  exact ⟨references, (array_ok listed).1, (List.pairwise_cons.mp (associationReferences_ok ordered)).2⟩

theorem bundle_integrity_valid {bundle : Value} {expected : Option String} {integrity : Integrity}
    (passed : bundle_integrity L bundle expected = .ok integrity) (valid : integrity.valid = true) :
    ∃ associations references items evidence,
      Checked L bundle integrity.digest associations references items evidence := by
  simp only [bundle_integrity, bind_ok] at passed
  obtain ⟨_, _, _, _, _, shape, _, version, _, kind, _, _, _, schema, stated, read, _, _, _, _, listed, associations, entries,
    bundled, refs, references, met, matched, objects, evidence, held, kept, uses, spoken, used, lines, done⟩ := passed
  cases done
  simp only [Bool.and_eq_true, decide_eq_true_eq] at valid
  obtain ⟨⟨⟨⟨⟨snapshot_ok, _⟩, identity_ok, artifact_ok⟩, counted, met_ok⟩, ⟨all_met, used_ok⟩, _⟩, _⟩ := valid
  obtain ⟨rfl, sorted⟩ := bundleAssociations_ok bundled
  obtain ⟨rfl, distinct, each⟩ := bundleEvidence_ok kept
  obtain ⟨references', same, ordered⟩ := snapshot_references schema
  rw [(array_ok references).1] at same
  cases same
  obtain ⟨is, each_met⟩ := evidenceUsed_ok lines all_met
  refine ⟨listed, refs, objects, uses, fields_ok shape, equal_ok version, equal_ok kind, rfl, ?_, identity_ok, artifact_ok,
    (array_ok associations).1, (array_ok references).1, (List.pairwise_cons.mp sorted).2, ordered, ?_, ?_,
    (array_ok evidence).1, (array_ok spoken).1, (List.pairwise_cons.mp distinct).2, each, each_met, ?_⟩
  · have text_ := (text_ok read).1
    rw [text_] at snapshot_ok
    rw [text_, Option.some.inj snapshot_ok]
  · rw [counted, List.length_map]
  · exact associationsMatch_ok (met_ok ▸ matched)
  · rw [← is, used_ok, List.length_map]

/-! ### What the digest pins -/

theorem found_mem {α : Type} {xs : List α} {key : α → String} {value : α → β} {k : String} {held : β}
    (is : found (xs.map fun x => (key x, value x)) k = some held) : ∃ x ∈ xs, key x = k ∧ value x = held := by
  obtain ⟨⟨_, _⟩, entry, rfl⟩ := Option.map_eq_some_iff.mp is
  obtain ⟨x, listed, same⟩ := List.mem_map.mp (List.mem_of_find?_eq_some entry)
  cases same
  exact ⟨x, listed, by simpa using List.find?_some entry, rfl⟩

theorem nodup_of_sorted {xs : List String} (sorted : xs.Pairwise (· < ·)) : xs.Nodup := by
  apply sorted.imp
  intro a b before same
  subst same
  exact String.lt_irrefl _ before

theorem sorted_eq {xs ys : List String} (sorted : xs.Pairwise (· < ·)) (ordered : ys.Pairwise (· < ·)) (within : ys ⊆ xs)
    (counted : ys.length = xs.length) : ys = xs := by
  have perm := ((nodup_of_sorted ordered).subperm within).perm_of_length_le counted.ge
  exact perm.eq_of_pairwise (fun a b _ _ before after => absurd after (String.lt_asymm before)) ordered sorted

section

variable {bundle : Value} {pin : String} {listed refs objects uses : List Value}

theorem Checked.ids (checked : Checked L bundle pin listed refs objects uses) :
    refs.map (textOf "record_id") = listed.map (textOf "record_id") := by
  refine sorted_eq checked.sorted checked.ordered (fun id named => ?_) (by simp [checked.counted])
  obtain ⟨r, member, rfl⟩ := List.mem_map.mp named
  obtain ⟨a, is, _⟩ := checked.matched r member
  obtain ⟨b, listed, named, _⟩ := found_mem is
  exact List.mem_map.mpr ⟨b, listed, named⟩

theorem Checked.association (checked : Checked L bundle pin listed refs objects uses) {place : Nat} {a r : Value}
    (here : listed[place]? = some a) (named : refs[place]? = some r) :
    (a.get "artifact_id").asStr = ((bundle.get "snapshot").get "artifact_id").asStr ∧
      some (canonical_digest L a) = (r.get "digest").asStr := by
  have same : textOf "record_id" r = textOf "record_id" a := by
    have at_ := congrArg (·[place]?) checked.ids
    simpa [here, named] using at_
  obtain ⟨b, is, matched⟩ := checked.matched r (List.mem_of_getElem? named)
  obtain ⟨c, member, key, rfl⟩ := found_mem is
  have one := List.inj_on_of_nodup_map (nodup_of_sorted checked.sorted) member (List.mem_of_getElem? here) (key.trans same)
  exact one ▸ matched

theorem Checked.digests (checked : Checked L bundle pin listed refs objects uses) :
    (uses.map (textOf "digest")).dedup.Perm (objects.map (textOf "digest")) := by
  refine ((List.nodup_dedup _).subperm fun named member => ?_).perm_of_length_le (by simp [checked.used])
  obtain ⟨r, spoken, rfl⟩ := List.mem_map.mp (List.mem_dedup.mp member)
  obtain ⟨_, _, _, _, is, _⟩ := (checked.met r spoken).evidence
  obtain ⟨e, listed, named, _⟩ := found_mem is
  exact List.mem_map.mpr ⟨e, listed, named⟩

theorem Checked.object (checked : Checked L bundle pin listed refs objects uses) {e : Value} (member : e ∈ objects) :
    (∃ r ∈ uses, textOf "digest" r = textOf "digest" e) ∧
      L.sha256_digest (utf8 (textOf "bytes" e)) = textOf "digest" e := by
  have used := checked.digests.mem_iff.mpr (List.mem_map_of_mem member)
  obtain ⟨r, spoken, named⟩ := List.mem_map.mp (List.mem_dedup.mp used)
  refine ⟨⟨r, spoken, named⟩, ?_⟩
  obtain ⟨_, bytes, _, _, is, hashed, _⟩ := (checked.met r spoken).evidence
  obtain ⟨f, listed, key, rfl⟩ := found_mem is
  have one := List.inj_on_of_nodup_map (nodup_of_sorted checked.distinct) listed member (key.trans named)
  rw [← named, ← hashed, one]

end

section

variable {a b : Value} {pin : String} {listed refs objects uses listed' refs' objects' uses' : List Value}

theorem map_canonical_of_get {key : String} {number : Number → Number} {v w : Value} {xs ys : List Value}
    (same : canonical number v = canonical number w) (left : v.get key = .array xs) (right : w.get key = .array ys) :
    xs.map (canonical number) = ys.map (canonical number) := by
  have forms := congrArg (·.get key) same
  simpa [get_canonical, left, right, canonical_array] using forms

theorem map_of_map_canonical {α : Type} {number : Number → Number} {xs ys : List Value} (f : Value → α)
    (formed : ∀ v, f (canonical number v) = f v) (same : xs.map (canonical number) = ys.map (canonical number)) :
    xs.map f = ys.map f := by
  have mapped := congrArg (List.map f) same
  simpa [Function.comp_def, formed] using mapped

theorem textOf_canonical {number : Number → Number} (key : String) (v : Value) :
    textOf key (canonical number v) = textOf key v := by
  rw [textOf, textOf, get_canonical, asStr_canonical]

variable (injective : Function.Injective L.sha256_digest)

include injective

theorem canonical_of_digest {v w : Value} (same : canonical_digest L v = canonical_digest L w) :
    canonical L.write_number v = canonical L.write_number w := canonical_json_inj.mp (injective same)

theorem associations_pinned (one : Checked L a pin listed refs objects uses)
    (other : Checked L b pin listed' refs' objects' uses')
    (same : canonical L.write_number (a.get "snapshot") = canonical L.write_number (b.get "snapshot")) :
    listed.map (canonical L.write_number) = listed'.map (canonical L.write_number) := by
  have references := map_canonical_of_get same one.references other.references
  have named := map_of_map_canonical (fun r => (r.get "digest").asStr) (fun v => by rw [get_canonical, asStr_canonical])
    references
  have lengths : refs.length = refs'.length := by simpa using congrArg List.length references
  have first := one.counted
  have second := other.counted
  refine List.ext_getElem? fun place => ?_
  rw [List.getElem?_map, List.getElem?_map]
  by_cases inside : place < listed.length
  · have x := List.getElem?_eq_getElem inside
    have y : listed'[place]? = some _ := List.getElem?_eq_getElem (by omega)
    have r : refs[place]? = some _ := List.getElem?_eq_getElem (by omega)
    have r' : refs'[place]? = some _ := List.getElem?_eq_getElem (by omega)
    have at_ := congrArg (·[place]?) named
    simp only [List.getElem?_map, r, r', Option.map_some, Option.some.injEq] at at_
    have digests := (one.association x r).2.trans (at_.trans (other.association y r').2.symm)
    rw [x, y, Option.map_some, Option.map_some, canonical_of_digest injective (Option.some.inj digests)]
  · rw [List.getElem?_eq_none_iff.mpr (by omega), List.getElem?_eq_none_iff.mpr (by omega)]

theorem object_pinned (one : Checked L a pin listed refs objects uses)
    (other : Checked L b pin listed' refs' objects' uses') {e f : Value} (first : e ∈ objects) (second : f ∈ objects')
    (same : textOf "digest" e = textOf "digest" f) :
    canonical L.write_number e = canonical L.write_number f := by
  obtain ⟨named, held, members, rfl, names⟩ := one.each e first
  obtain ⟨named', held', members', rfl, names'⟩ := other.each f second
  have hashed := (one.object first).2.trans (same.trans (other.object second).2.symm)
  have bytes := congrArg fromUtf8 (injective hashed)
  rw [fromUtf8_utf8, fromUtf8_utf8, Option.some.injEq] at bytes
  refine canonical_object_congr (fun name => (names name).trans (names' name).symm) fun name listed => ?_
  rcases (by simpa using (names name).mp listed : name = "digest" ∨ name = "bytes") with rfl | rfl
  · rw [named, named', same]
  · rw [held, held', bytes]

theorem evidence_pinned (one : Checked L a pin listed refs objects uses)
    (other : Checked L b pin listed' refs' objects' uses')
    (same : canonical L.write_number (a.get "snapshot") = canonical L.write_number (b.get "snapshot")) :
    objects.map (canonical L.write_number) = objects'.map (canonical L.write_number) := by
  have references := map_canonical_of_get same one.spoken other.spoken
  have named := map_of_map_canonical (textOf "digest") (textOf_canonical "digest") references
  have perm : (objects.map (textOf "digest")).Perm (objects'.map (textOf "digest")) :=
    one.digests.symm.trans (named ▸ other.digests)
  have digests : objects.map (textOf "digest") = objects'.map (textOf "digest") :=
    perm.eq_of_pairwise (fun a b _ _ before after => absurd after (String.lt_asymm before)) one.distinct other.distinct
  have lengths : objects.length = objects'.length := by simpa using congrArg List.length digests
  refine List.ext_getElem? fun place => ?_
  rw [List.getElem?_map, List.getElem?_map]
  by_cases inside : place < objects.length
  · have x := List.getElem?_eq_getElem inside
    have y : objects'[place]? = some _ := List.getElem?_eq_getElem (by omega)
    have at_ := congrArg (·[place]?) digests
    simp only [List.getElem?_map, x, y, Option.map_some, Option.some.injEq] at at_
    rw [x, y, Option.map_some, Option.map_some, Option.some.injEq]
    exact object_pinned injective one other (List.mem_of_getElem? x) (List.mem_of_getElem? y) at_
  · rw [List.getElem?_eq_none_iff.mpr (by omega), List.getElem?_eq_none_iff.mpr (by omega)]

theorem bundle_pinned (one : Checked L a pin listed refs objects uses)
    (other : Checked L b pin listed' refs' objects' uses') :
    canonical L.write_number a = canonical L.write_number b := by
  have snapshots := canonical_of_digest injective (one.digest.symm.trans other.digest)
  obtain ⟨members, rfl, names⟩ := one.shape
  obtain ⟨members', rfl, names'⟩ := other.shape
  refine canonical_object_congr (fun name => (names name).trans (names' name).symm) fun name named => ?_
  have listed_ := (names name).mp named
  simp only [BUNDLE_FIELDS, List.mem_cons, List.not_mem_nil, or_false] at listed_
  rcases listed_ with rfl | rfl | rfl | rfl | rfl | rfl | rfl
  · rw [one.version, other.version]
  · rw [one.kind, other.kind]
  · have stated := congrArg (fun form => (form.get "identity_digest").asStr) snapshots
    simp only [get_canonical, asStr_canonical] at stated
    exact canonical_of_digest injective (Option.some.inj (one.identity.trans (stated.trans other.identity.symm)))
  · rw [one.associations, other.associations, canonical_array, canonical_array,
      associations_pinned injective one other snapshots]
  · exact snapshots
  · rw [one.stated, other.stated]
  · rw [one.evidence, other.evidence, canonical_array, canonical_array, evidence_pinned injective one other snapshots]

end

structure Holds (L : Libraries Uuid) (bundle : Value) (id : String) (listed refs objects uses : List Value) : Prop where
  associations : bundle.get "associations" = .array listed
  references : (bundle.get "snapshot").get "associations" = .array refs
  evidence : bundle.get "evidence" = .array objects
  spoken : (bundle.get "snapshot").get "evidence" = .array uses
  snapshot : (bundle.get "snapshot").get "artifact_id" = .string id
  identity : (bundle.get "identity").get "artifact_id" = .string id
  each : ∀ a ∈ listed, a.get "artifact_id" = .string id
  named : listed.map (fun a => (textOf "record_id" a, canonical_digest L a)) =
    refs.map fun r => (textOf "record_id" r, textOf "digest" r)
  used : ∀ named, named ∈ objects.map (textOf "digest") ↔ named ∈ uses.map (textOf "digest")
  once : (objects.map (textOf "digest")).Nodup
  hashed : ∀ e ∈ objects, L.sha256_digest (utf8 (textOf "bytes" e)) = textOf "digest" e
  attached : ∀ r ∈ uses, ∃ a ∈ listed, ∃ e ∈ objects, ∃ session, textOf "record_id" a = textOf "association_id" r ∧
    textOf "digest" e = textOf "digest" r ∧ (a.get "session").get "id" = .string session ∧
    ∀ line ∈ ndjsonLines (utf8 (textOf "bytes" e)), ∃ record, parse L line = .ok record ∧
      sessionIds record ≠ [] ∧ ∀ id ∈ sessionIds record, id.asStr = some session

theorem textOf_string {value : Value} {key s : String} (held : (value.get key).asStr = some s) :
    value.get key = .string s ∧ textOf key value = s := by
  rw [textOf, held]
  cases is : value.get key with
  | string t =>
    rw [is] at held
    cases held
    exact ⟨rfl, rfl⟩
  | _ =>
    rw [is] at held
    cases held

theorem Checked.holds {a : Value} {id pin : String} {listed refs objects uses : List Value}
    (checked : Checked L a pin listed refs objects uses)
    (artifact : (a.get "snapshot").get "artifact_id" = .string id) : Holds L a id listed refs objects uses := by
  have lengths := checked.counted
  have matched : ∀ (place : Nat) x, listed[place]? = some x → ∃ r, refs[place]? = some r ∧
      x.get "artifact_id" = .string id ∧ textOf "digest" r = canonical_digest L x := by
    intro place x here
    have inside := (List.getElem?_eq_some_iff.mp here).1
    have r : refs[place]? = some _ := List.getElem?_eq_getElem (by omega)
    obtain ⟨names, digests⟩ := checked.association here r
    rw [artifact] at names
    exact ⟨_, r, (textOf_string names).1, (textOf_string digests.symm).2⟩
  refine ⟨checked.associations, checked.references, checked.evidence, checked.spoken, artifact, ?_, ?_, ?_, ?_,
    nodup_of_sorted checked.distinct, fun e member => (checked.object member).2, ?_⟩
  · have names := checked.artifact
    rw [artifact] at names
    exact (textOf_string names).1
  · intro x member
    obtain ⟨place, here⟩ := List.getElem?_of_mem member
    obtain ⟨_, _, names, _⟩ := matched place x here
    exact names
  · refine List.ext_getElem? fun place => ?_
    rw [List.getElem?_map, List.getElem?_map]
    cases here : listed[place]? with
    | none =>
      have past := List.getElem?_eq_none_iff.mp here
      rw [List.getElem?_eq_none_iff.mpr (by omega)]
      rfl
    | some x =>
      obtain ⟨r, there, _, digests⟩ := matched place x here
      have at_ := congrArg (·[place]?) checked.ids
      simp only [List.getElem?_map, here, there, Option.map_some, Option.some.injEq] at at_
      rw [there, Option.map_some, Option.map_some, at_, digests]
  · intro named
    rw [← checked.digests.mem_iff, List.mem_dedup]
  · intro r member
    obtain ⟨_, _, session, assoc, bytes, _, spoken, lines⟩ := (checked.met r member).evidence
    obtain ⟨x, there, key, rfl⟩ := found_mem assoc
    obtain ⟨e, held, named, rfl⟩ := found_mem bytes
    exact ⟨x, there, e, held, session, key, named, spoken, lines⟩

theorem snapshot_artifact {snapshot : Value} {u : Unit} (passed : Artifact.snapshot L snapshot = .ok u) :
    ∃ id, snapshot.get "artifact_id" = .string id := by
  simp only [Artifact.snapshot, base, bind_ok] at passed
  obtain ⟨_, _, _, ⟨_, _, _, _, id, named, _⟩, _⟩ := passed
  exact ⟨id, (text_ok named).1⟩

theorem bundle_integrity_snapshot {bundle : Value} {expected : Option String} {integrity : Integrity}
    (passed : bundle_integrity L bundle expected = .ok integrity) :
    ∃ u, Artifact.snapshot L (bundle.get "snapshot") = .ok u := by
  simp only [bundle_integrity, bind_ok] at passed
  obtain ⟨_, _, _, _, _, _, _, _, _, _, _, _, u, schema, _⟩ := passed
  exact ⟨u, schema⟩

/-- One snapshot digest, one bundle; and a valid bundle holds exactly what its snapshot names. -/
theorem valid_bundles (injective : Function.Injective L.sha256_digest) :
    (∀ a b expected expected' one other, bundle_integrity L a expected = .ok one → one.valid = true →
      bundle_integrity L b expected' = .ok other → other.valid = true → one.digest = other.digest →
      canonical_json L.write_number a = canonical_json L.write_number b) ∧
    ∀ bundle expected integrity, bundle_integrity L bundle expected = .ok integrity → integrity.valid = true →
      integrity.digest = canonical_digest L (bundle.get "snapshot") ∧
        ∃ id associations references items evidence, Holds L bundle id associations references items evidence := by
  constructor
  · intro a b expected expected' one other first valid second valid' same
    obtain ⟨_, _, _, _, checked⟩ := bundle_integrity_valid first valid
    obtain ⟨_, _, _, _, checked'⟩ := bundle_integrity_valid second valid'
    rw [← same] at checked'
    exact canonical_json_inj.mpr (bundle_pinned injective checked checked')
  · intro bundle expected integrity passed valid
    obtain ⟨_, _, _, _, checked⟩ := bundle_integrity_valid passed valid
    obtain ⟨_, schema⟩ := bundle_integrity_snapshot passed
    obtain ⟨id, artifact⟩ := snapshot_artifact schema
    exact ⟨checked.digest, id, _, _, _, _, checked.holds artifact⟩

end

/-! ### A file drafted in one session -/

def sampleBase (kind : String) : List (String × Value) :=
  [("record_version", .string VERSION), ("kind", .string kind),
    ("artifact_id", .string "urn:uuid:00000000-0000-4000-8000-000000000001"), ("created_at", .string "2026-01-01T00:00:00Z")]

def sampleIdentity : Value := .object (sampleBase "identity")

def sampleAssociation : Value := .object (sampleBase "association" ++
  [("record_id", .string "00000000-0000-4000-8000-000000000002"),
    ("session", .object [("namespace", .string "host"), ("id", .string "s"),
      ("edge", .object [("issuer", .string "i"), ("installation_id", .string "n")])]),
    ("role", .string "drafting"),
    ("assertion", .object [("basis", .string "agent_declaration"), ("actor", .string "a"),
      ("relation", .string "session-associated-with-artifact")]),
    ("applies_to", .object [("kind", .string "working_artifact")])])

def sampleEvidence : Bytes := write (.object [("session_id", .string "s")]) ++ [newline]

def identityDigest : String := "sha256:8a7143b9e75edcc51aaecc55d32496234c14391a58afc058977dcde2bdfe28f2"

def associationDigest : String := "sha256:b8cf54bd766ea54f032d11ffe71573dd7ad386cdf5bd9cd8760259d31a40069b"

def snapshotDigest : String := "sha256:8f8da0887e2bd328f16b4416b6e8df2f6cde2130081d20c210a88f68c7548c25"

def evidenceDigest : String := "sha256:f9427c88ad1920a3cb8af7a791ed40344a6fe9bd35c74bd7af8807bdc392a664"

def sampleSnapshot : Value := .object (sampleBase "snapshot" ++
  [("snapshot_id", .string "00000000-0000-4000-8000-000000000003"), ("identity_digest", .string identityDigest),
    ("parents", .array []),
    ("content", .object [("scope", .string "file-bytes/1"), ("algorithm", .string "sha256"),
      ("digest", .string "sha256:2d711642b726b04401627ca9fbac32f5c8530fb1903cc4db02258717921a4881"),
      ("byte_length", .number (.ofNat 1))]),
    ("associations", .array [.object [("record_id", .string "00000000-0000-4000-8000-000000000002"),
      ("digest", .string associationDigest)]]),
    ("evidence", .array [.object [("association_id", .string "00000000-0000-4000-8000-000000000002"),
      ("digest", .string evidenceDigest), ("scope", .string "evidence-bytes/1"), ("format", .string "application/x-ndjson"),
      ("coverage", .object [("kind", .string "full_prefix"), ("log_id", .string "s"), ("start", .number (.ofNat 0)),
        ("end", .number (.ofNat 19)), ("record_count", .number (.ofNat 1)), ("complete_lines", .bool true),
        ("captured_at", .string "2026-01-01T00:00:00Z")])]])])

def sampleBundle : Value := .object [("record_version", .string VERSION), ("kind", .string "bundle"),
  ("identity", sampleIdentity), ("associations", .array [sampleAssociation]), ("snapshot", sampleSnapshot),
  ("snapshot_digest", .string snapshotDigest),
  ("evidence", .array [.object [("digest", .string evidenceDigest), ("bytes", .string (spelled sampleEvidence))]])]

def sampleDigest : Bytes → String :=
  patched [(canonical_json (fun n => n) sampleIdentity, identityDigest),
    (canonical_json (fun n => n) sampleAssociation, associationDigest),
    (canonical_json (fun n => n) sampleSnapshot, snapshotDigest), (sampleEvidence, evidenceDigest)] marked

theorem sampleDigest_injective : Function.Injective sampleDigest := by
  refine patched_injective marked_injective ?_ fun value listed => marked_ne ?_
  · show [identityDigest, associationDigest, snapshotDigest, evidenceDigest].Nodup
    decide
  · revert value
    show ∀ value ∈ [identityDigest, associationDigest, snapshotDigest, evidenceDigest], value.toList.head? ≠ some 'o'
    decide

def sampleLibraries : Libraries Hyphenated where
  uuids := hyphenated
  rfc3339 s := s = "2026-01-01T00:00:00Z"
  sha256_digest := sampleDigest
  write_number n := n
  moderate n := n.text.length < 16
  folded_path s := s
  debug s := s
  from_slice bytes := match readDocument 128 bytes with
    | some value => .ok value
    | none => .error "expected value"

def accepts {Uuid : Type} (L : Libraries Uuid) (bundle : Value) (expected : Option String) : Bool :=
  match bundle_integrity L bundle expected with
  | .ok integrity => integrity.valid
  | .error _ => false

theorem valid_bundles_sample : accepts sampleLibraries sampleBundle (some snapshotDigest) = true ∧
    ∃ id associations references items evidence,
      Holds sampleLibraries sampleBundle id associations references items evidence := by
  have accepted : accepts sampleLibraries sampleBundle (some snapshotDigest) = true := by decide +kernel
  refine ⟨accepted, ?_⟩
  unfold accepts at accepted
  split at accepted
  · rename_i integrity passed
    exact ((valid_bundles sampleDigest_injective).2 _ _ _ passed accepted).2
  · cases accepted

end CommonMeasure.Artifact
