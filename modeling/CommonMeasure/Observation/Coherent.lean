import CommonMeasure.Observation.Appends

namespace CommonMeasure.Observation

open Json Evidence

def sharedMembers : List String := ["generation_id", "output_id", "session_id", "host", "timestamp", "observer", "grade"]

def Agrees (output boundary : Value) : Prop :=
  payloadText boundary "turn_id" = payloadText output "generation_id" ∧
    ∀ name ∈ sharedMembers, (boundary.get "payload").get name = (output.get "payload").get name

structure Follows (before : List Value) (record : Value) : Prop where
  output : eventOf record = some "output_associated" → ∀ other ∈ before, eventOf other = some "output_associated" →
    payloadText other "generation_id" ≠ payloadText record "generation_id" ∧
      payloadText other "output_id" ≠ payloadText record "output_id"
  boundary : eventOf record = some "turn_completed" →
    (∀ other ∈ before, eventOf other = some "turn_completed" → payloadText other "turn_id" ≠ payloadText record "turn_id") ∧
      ∃ output ∈ before, eventOf output = some "output_associated" ∧ Agrees output record
  entry : eventOf record = some "context_entered" →
    (∀ output ∈ before, eventOf output = some "output_associated" →
      payloadText output "generation_id" ≠ payloadText record "generation_id") ∧
    (∀ other ∈ before, eventOf other = some "context_entered" →
      ¬(payloadText other "acquisition_id" = payloadText record "acquisition_id" ∧
        payloadText other "generation_id" = payloadText record "generation_id" ∧
        payloadText other "representation_hash" = payloadText record "representation_hash")) ∧
    ∃ crossing ∈ before, eventOf crossing = some "crossing_mediated" ∧
      payloadText crossing "acquisition_id" = payloadText record "acquisition_id" ∧
      (isObject ((crossing.get "payload").get "delivered_file") = true →
        payloadText crossing "content_hash" = payloadText record "representation_hash")
  action : eventOf record = some "action_decided" →
    (∀ other ∈ before, eventOf other = some "action_decided" →
      payloadText other "action_id" ≠ payloadText record "action_id") ∧
    (∃ crossing ∈ before, eventOf crossing = some "crossing_mediated" ∧
      payloadText crossing "acquisition_id" = payloadText record "acquisition_id" ∧
      payloadText crossing "content_hash" = payloadText record "data_hash") ∧
    ∃ entry ∈ before, eventOf entry = some "context_entered" ∧
      payloadText entry "acquisition_id" = payloadText record "acquisition_id" ∧
      payloadText entry "generation_id" = payloadText record "generation_id"

def Coherent (records : List Value) : Prop := ∀ before record after, records = before ++ record :: after → Follows before record

section

variable {records before gaps : List Value} {record : Value}

theorem gap_event (is : isGap record) : eventOf record = some "evidence_gap" := by
  unfold eventOf
  rw [is]
  rfl

theorem follows_other {event : String} (is : eventOf record = some event)
    (other : event ∉ ["output_associated", "turn_completed", "context_entered", "action_decided"]) : Follows before record := by
  constructor
  all_goals
    intro same
    rw [is] at same
    obtain rfl := Option.some.inj same
    simp at other

theorem coherent_nil : Coherent [] := by
  intro before record after split
  simp at split

theorem Coherent.snoc (coherent : Coherent records) (follows : Follows records record) : Coherent (records ++ [record]) := by
  intro before other after split
  rcases List.eq_nil_or_concat after with rfl | ⟨front, last, rfl⟩
  · obtain ⟨rfl, same⟩ := List.append_inj' split rfl
    rw [← (List.cons.inj same).1]
    exact follows
  · rw [List.concat_eq_append, ← List.cons_append, ← List.append_assoc] at split
    exact coherent before other front (List.append_inj' split rfl).1

theorem Coherent.marked (coherent : Coherent records) (are : ∀ gap ∈ gaps, isGap gap) : Coherent (records ++ gaps) := by
  induction gaps using List.reverseRecOn with
  | nil => simpa using coherent
  | append_singleton gaps gap ih =>
    rw [← List.append_assoc]
    apply (ih fun other listed => are other (List.mem_append_left _ listed)).snoc
    exact follows_other (gap_event (are gap (by simp))) (by decide)

theorem Follows.marked (follows : Follows before record) (are : ∀ gap ∈ gaps, isGap gap) : Follows (before ++ gaps) record := by
  have kept {event : String} (other : event ≠ "evidence_gap") {held : Value} (listed : held ∈ before ++ gaps)
      (is : eventOf held = some event) : held ∈ before := by
    rcases List.mem_append.mp listed with earlier | gap
    · exact earlier
    · rw [gap_event (are held gap)] at is
      exact absurd (Option.some.inj is).symm other
  refine ⟨?_, ?_, ?_, ?_⟩
  · intro is held listed event
    exact follows.output is held (kept (by decide) listed event) event
  · intro is
    obtain ⟨fresh, output, listed, rest⟩ := follows.boundary is
    refine ⟨fun held listed event => fresh held (kept (by decide) listed event) event, output, ?_, rest⟩
    exact List.mem_append_left _ listed
  · intro is
    obtain ⟨earlier, fresh, crossing, listed, rest⟩ := follows.entry is
    refine ⟨fun held listed event => earlier held (kept (by decide) listed event) event,
      fun held listed event => fresh held (kept (by decide) listed event) event, crossing, ?_, rest⟩
    exact List.mem_append_left _ listed
  · intro is
    obtain ⟨fresh, ⟨crossing, crossed, issued⟩, entry, listed, rest⟩ := follows.action is
    exact ⟨fun held listed event => fresh held (kept (by decide) listed event) event,
      ⟨crossing, List.mem_append_left _ crossed, issued⟩, entry, List.mem_append_left _ listed, rest⟩

variable {J : Reader} {file after : Bytes}

theorem grew_records {added : List Value} (grew : Grew J file after added) : ∃ gaps more,
    logRecords J after = logRecords J file ++ gaps ++ added ++ more ∧ (∀ gap ∈ gaps, isGap gap) ∧ ∀ gap ∈ more, isGap gap := by
  obtain ⟨_, new, gaps, more, held, split, before, behind⟩ := grew
  refine ⟨gaps, more, ?_, before, behind⟩
  unfold logRecords
  rw [held, List.map_append, split]
  simp

theorem Coherent.grew_nothing (coherent : Coherent (logRecords J file)) (grew : Grew J file after []) :
    Coherent (logRecords J after) := by
  obtain ⟨gaps, more, split, before, behind⟩ := grew_records grew
  rw [split, List.append_nil]
  exact (coherent.marked before).marked behind

theorem Coherent.grew_one (coherent : Coherent (logRecords J file)) (grew : Grew J file after [record])
    (follows : Follows (logRecords J file) record) : Coherent (logRecords J after) := by
  obtain ⟨gaps, more, split, before, behind⟩ := grew_records grew
  rw [split]
  exact ((coherent.marked before).snoc (follows.marked before)).marked behind

theorem Coherent.output_once (coherent : Coherent records) {one other : Value} (listed : one ∈ records) (also : other ∈ records)
    (is : eventOf one = some "output_associated") (too : eventOf other = some "output_associated")
    (same : payloadText one "generation_id" = payloadText other "generation_id" ∨
      payloadText one "output_id" = payloadText other "output_id") : one = other := by
  by_contra different
  obtain ⟨before, after, split⟩ := List.append_of_mem listed
  rw [split] at also
  rcases List.mem_append.mp also with earlier | later
  · have fresh := (coherent before one after split).output is other earlier too
    exact same.elim (fun same => fresh.1 same.symm) fun same => fresh.2 same.symm
  · rcases List.mem_cons.mp later with rfl | later
    · exact different rfl
    · obtain ⟨middle, rest, split'⟩ := List.append_of_mem later
      rw [split', ← List.cons_append, ← List.append_assoc] at split
      have fresh := (coherent (before ++ one :: middle) other rest split).output too one (by simp) is
      exact same.elim fresh.1 fresh.2

end

end CommonMeasure.Observation
