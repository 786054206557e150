import CommonMeasure.Evidence.Scan

namespace CommonMeasure.Evidence
open Json

structure Entry (J : Reader) (r : Value) : Prop where
  held : J.Holds r
  shallow : r.depth ≤ recursionLimit
  object : ∃ members, r = .object members

theorem Entry.read {J : Reader} {r : Value} (entry : Entry J r) : J.fromSlice (write r) = some r := by
  rw [J.read_write r entry.held, if_pos entry.shallow]

theorem Entry.not_blank {J : Reader} {r : Value} (entry : Entry J r) {part : Bytes} (some_ : part ≠ [])
    (prefixed : part <+: write r) : blank part = false := by
  obtain ⟨members, rfl⟩ := entry.object
  rw [write] at prefixed
  rcases cut_cons prefixed with empty | ⟨rest, rfl, _⟩
  · exact (some_ empty).elim
  · rfl

theorem Entry.cut {J : Reader} {r : Value} (entry : Entry J r) {part : Bytes} (prefixed : part <+: write r)
    (short : part ≠ write r) : J.fromSlice part = none := by
  obtain ⟨members, rfl⟩ := entry.object
  exact J.read_cut members part prefixed short

theorem write_ne_nil (v : Value) : write v ≠ [] := by
  intro empty
  have depth := depth_le v
  cases v with
  | number n =>
    obtain ⟨text, whole⟩ := n
    rw [write] at empty
    subst empty
    cases whole
  | bool b => cases b <;> simp [write] at empty
  | _ => simp [write, writeString] at empty

theorem settled_entries {J : Reader} {lines : List Bytes} {records rs : List Value} (settled : Settled J lines records)
    (entries : ∀ r ∈ rs, Entry J r) : Settled J (lines ++ rs.map write) (records ++ rs) := by
  induction rs generalizing lines records with
  | nil => simpa using settled
  | cons r rs ih =>
    simp only [List.forall_mem_cons] at entries
    have first := settled.record (entries.1.not_blank (write_ne_nil r) (List.prefix_refl _)) entries.1.read
    simpa using ih first entries.2

theorem record_entry {J : Reader} {n : Nat} (small : n < 2 ^ 64) (timestamp event : String) {payload : Value}
    (held : J.Holds payload) (shallow : payload.depth < recursionLimit) : Entry J (record n timestamp event payload) where
  held := record_holds small timestamp event held
  shallow := by
    simp only [record, Value.depth, depthMembers]
    omega
  object := ⟨_, rfl⟩

theorem tornGap_entry {J : Reader} {n bytes : Nat} (small : n < 2 ^ 64) (few : bytes < 2 ^ 64) (clock : Clock) :
    Entry J (tornGapRecord n bytes clock) where
  held := by
    obtain ⟨timestamp, payload, held, same⟩ := tornGap_holds J few clock n
    rw [same]
    exact record_holds small timestamp _ held
  shallow := by
    simp [tornGapRecord, record, Value.depth, depthMembers, writeFailed, recursionLimit]
  object := ⟨_, rfl⟩

theorem tornLineGap_mark {J : Reader} {n bytes : Nat} (small : n < 2 ^ 64) (few : bytes < 2 ^ 64) (clock : Clock) :
    tornLineGap J (write (tornGapRecord n bytes clock)) = some bytes := by
  have read := (tornGap_entry small few clock (J := J)).read
  have named : utf8 TORN_LINE_BYTES <:+: write (tornGapRecord n bytes clock) := by
    apply List.IsInfix.trans _ (write_object_value (List.mem_cons_of_mem _ (List.mem_cons_of_mem _
      (List.mem_cons_of_mem _ List.mem_cons_self))))
    apply write_object_name (by decide +kernel)
    exact List.mem_cons_of_mem _ (List.mem_cons_of_mem _ (List.mem_cons_of_mem _ List.mem_cons_self))
  rw [tornLineGap, if_pos named, read]
  simp only [tornGapRecord, record, Value.get, Value.asStr, TORN_LINE_BYTES]
  exact asU64_ofNat few

section

variable {J : Reader} {file : Bytes} {clock : Clock}

def gapOf (file : Bytes) (clock : Clock) : List Value :=
  if (splitLines file).2 = [] then []
  else [tornGapRecord ((splitLines file).1.length + 2) (splitLines file).2.length clock]

theorem mark_eq (file : Bytes) (clock : Clock) :
    mark (splitLines file).1.length (splitLines file).2 clock = (gapOf file clock).map write := by
  unfold mark gapOf
  split <;> rfl

theorem gapOf_entry (bounded : file.length < maxFile) : ∀ r ∈ gapOf file clock, Entry J r := by
  intro r member
  have parts := splitLines_length file
  unfold maxFile at bounded
  unfold gapOf at member
  split at member
  · cases member
  · rw [List.mem_singleton.mp member]
    exact tornGap_entry (by omega) (by omega) clock

theorem gapOf_event : ∀ r ∈ gapOf file clock, r.get "event" = .string "evidence_gap" := by
  intro r member
  unfold gapOf at member
  split at member
  · cases member
  · rw [List.mem_singleton.mp member]
    exact record_event _ _ _ _

end

def quiet : Clock := ⟨"2026-09-29T10:00:00.000Z", "2026-09-29T10:00:01.000Z", "2026-09-29T10:00:02.000Z"⟩

end CommonMeasure.Evidence
