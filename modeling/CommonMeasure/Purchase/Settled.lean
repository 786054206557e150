import CommonMeasure.Purchase.Plan

namespace CommonMeasure.Purchase

open Admission

namespace Event

def spends : Event → Bool
  | .dispatched call => call.spends
  | _ => false

def quiet : Event → Bool
  | .ruled _ _ | .sealed _ | .unreadable _ => true
  | _ => false

def resolves (reservation : String) : Event → Bool
  | .settled (some other) _ _ => other = reservation
  | .released other _ => other = reservation
  | _ => false

def statement (T : Texts) : Event → Option String
  | .settled reservation observed (some error) => some (settlement_failure T observed reservation error)
  | .released _ (some error) => some (release_failure error)
  | _ => none

end Event

def Stated (T : Texts) (event : Event) (exit : Exit) : Prop :=
  ∀ statement ∈ event.statement T, ∃ gaps, exit = .planned gaps ∧ statement ∈ gaps

structure Kept (T : Texts) (host_of : String → String) (setting : Setting) (passage : Passage) : Prop where
  once : (passage.events.filter Event.spends).length ≤ 1
  cleared : ∀ before call after, passage.events = before ++ .dispatched call :: after → call.spends = true →
    (∀ stage ruling, .ruled stage ruling ∈ passage.events →
      .ruled stage ruling ∈ before ∧ ruling.is_refusal = false) ∧
    .ruled .eligibility (eligibility setting) ∈ before ∧
    (∀ ruling ∈ target_ruling T host_of setting, .ruled .target ruling ∈ before) ∧
    (call = .confirm → .sealed .inspect ∈ before ∧ .sealed .preview ∈ before ∧
      ∃ quote, .ruled .purchase (purchase_ruling T setting quote) ∈ before)
  readable : mode setting = .strict → ∀ error call, .unreadable error ∈ passage.events → .dispatched call ∉ passage.events
  resolved : ∀ reservation, .reserved reservation ∈ passage.events →
    ∃ event, passage.events.filter (Event.resolves reservation) = [event] ∧ Stated T event passage.exit
  committed : ∀ charge money, .receipt charge ∈ passage.events → charge.money = some money →
    (∃ context ∈ setting.allowance, context.declared = true) →
    ∃ reservation error, .settled reservation (some money) error ∈ passage.events ∧
      Stated T (.settled reservation (some money) error) passage.exit

section

variable {T : Texts} {host_of : String → String} {setting : Setting} {world : World}

theorem kept_quiet {events : List Event} (quiet : ∀ event ∈ events, event.quiet = true) (exit : Exit) :
    Kept T host_of setting ⟨events, exit⟩ := by
  have silent : ∀ event ∈ events, event.quiet = false → False := fun event listed loud => by
    rw [quiet event listed] at loud
    cases loud
  refine ⟨?_, ?_, ?_, fun _ listed => (silent _ listed rfl).elim, fun _ _ listed => (silent _ listed rfl).elim⟩
  · rw [List.filter_eq_nil_iff.mpr]
    · exact Nat.zero_le _
    · intro event listed spent
      cases event with
      | dispatched call => exact silent _ listed rfl
      | _ => cases spent
  · intro before call after is _
    have listed : Event.dispatched call ∈ events := by
      show _ ∈ Passage.events ⟨events, exit⟩
      rw [is]
      simp
    exact (silent _ listed rfl).elim
  · exact fun _ _ call _ listed => (silent _ listed rfl).elim

structure Standing (T : Texts) (host_of : String → String) (setting : Setting) (before : List Event)
    (reservation : Option String) : Prop where
  quiet : ∀ event ∈ before, event.quiet = true ∨ ∃ held, reservation = some held ∧ event = .reserved held
  held : ∀ id, reservation = some id → .reserved id ∈ before
  allowed : ∀ stage ruling, .ruled stage ruling ∈ before → ruling.is_refusal = false
  eligible : .ruled .eligibility (eligibility setting) ∈ before
  target : ∀ ruling ∈ target_ruling T host_of setting, .ruled .target ruling ∈ before
  readable : mode setting = .strict → ∀ error, .unreadable error ∉ before

structure Answer (T : Texts) (setting : Setting) (reservation : Option String) (rest : List Event) (exit : Exit) : Prop where
  resolved : ∀ held, reservation = some held →
    ∃ event, rest.filter (Event.resolves held) = [event] ∧ Stated T event exit
  committed : ∀ charge money, .receipt charge ∈ rest → charge.money = some money →
    (∃ context ∈ setting.allowance, context.declared = true) →
    ∃ reservation error, .settled reservation (some money) error ∈ rest ∧
      Stated T (.settled reservation (some money) error) exit

def Event.follows : Event → Bool
  | .receipt _ | .sealed _ | .settled _ _ _ | .released _ _ => true
  | _ => false

theorem kept_iff_answer {before rest : List Event} {call : Call} {reservation : Option String} {exit : Exit}
    (standing : Standing T host_of setting before reservation) (follows : ∀ event ∈ rest, event.follows = true)
    (legs : call = .confirm → .sealed .inspect ∈ before ∧ .sealed .preview ∈ before ∧
      ∃ quote, .ruled .purchase (purchase_ruling T setting quote) ∈ before) :
    Kept T host_of setting ⟨before ++ .dispatched call :: rest, exit⟩ ↔ Answer T setting reservation rest exit := by
  have early : ∀ event ∈ before, event.quiet = false → ∃ held, reservation = some held ∧ event = .reserved held := by
    intro event listed loud
    obtain quiet | held := standing.quiet event listed
    · rw [quiet] at loud
      cases loud
    · exact held
  have late : ∀ event ∈ rest, event.follows = false → False := fun event listed other => by
    rw [follows event listed] at other
    cases other
  have unresolved : ∀ held, before.filter (Event.resolves held) = [] := by
    intro held
    rw [List.filter_eq_nil_iff]
    intro event listed resolves
    cases event with
    | settled => obtain ⟨_, _, same⟩ := early _ listed rfl; cases same
    | released => obtain ⟨_, _, same⟩ := early _ listed rfl; cases same
    | _ => cases resolves
  have filtered : ∀ held, (before ++ Event.dispatched call :: rest).filter (Event.resolves held) =
      rest.filter (Event.resolves held) := by
    intro held
    rw [List.filter_append, unresolved, List.nil_append, List.filter_cons_of_neg (by exact Bool.false_ne_true)]
  have receipts : ∀ charge, Event.receipt charge ∈ before ++ .dispatched call :: rest ↔ Event.receipt charge ∈ rest := by
    intro charge
    refine ⟨fun listed => ?_, fun listed => List.mem_append_right _ (List.mem_cons_of_mem _ listed)⟩
    obtain listed | listed := List.mem_append.mp listed
    · obtain ⟨_, _, same⟩ := early _ listed rfl
      cases same
    · exact (List.mem_cons.mp listed).resolve_left (fun same => nomatch same)
  constructor
  · intro kept
    refine ⟨fun held is => ?_, ?_⟩
    · obtain ⟨event, one, stated⟩ := kept.resolved held (List.mem_append_left _ (standing.held held is))
      exact ⟨event, (filtered held).symm.trans one, stated⟩
    · intro charge money listed is declared
      obtain ⟨held, error, settled, stated⟩ := kept.committed charge money ((receipts charge).mpr listed) is declared
      refine ⟨held, error, ?_, stated⟩
      obtain there | there := List.mem_append.mp settled
      · obtain ⟨_, _, same⟩ := early _ there rfl
        cases same
      · exact (List.mem_cons.mp there).resolve_left (fun same => nomatch same)
  · intro answer
    have place : ∀ before' other after, before ++ Event.dispatched call :: rest = before' ++ .dispatched other :: after →
        before' = before ∧ other = call := by
      intro before' other after is
      obtain ⟨more, same, rest_⟩ | ⟨more, same, rest_⟩ := List.append_eq_append_iff.mp is
      · cases more with
        | nil =>
          rw [List.append_nil] at same
          cases rest_
          exact ⟨same, rfl⟩
        | cons first more =>
          rw [List.cons_append] at rest_
          cases rest_
          exact (late _ (List.mem_append_right _ List.mem_cons_self) rfl).elim
      · cases more with
        | nil =>
          rw [List.append_nil] at same
          cases rest_
          exact ⟨same.symm, rfl⟩
        | cons first more =>
          rw [List.cons_append] at rest_
          cases rest_
          obtain ⟨_, _, wrong⟩ := early (.dispatched other) (by rw [same]; simp) rfl
          cases wrong
    refine ⟨?_, ?_, ?_, ?_, ?_⟩
    · show ((before ++ Event.dispatched call :: rest).filter Event.spends).length ≤ 1
      have first : before.filter Event.spends = [] := by
        rw [List.filter_eq_nil_iff]
        intro event listed spends
        cases event with
        | dispatched => obtain ⟨_, _, same⟩ := early _ listed rfl; cases same
        | _ => cases spends
      have last : rest.filter Event.spends = [] := by
        rw [List.filter_eq_nil_iff]
        intro event listed spends
        cases event with
        | dispatched => exact late _ listed rfl
        | _ => cases spends
      rw [List.filter_append, first, List.filter_cons, last]
      split <;> simp
    · intro before' other after is spends
      obtain ⟨rfl, rfl⟩ := place before' other after is
      refine ⟨fun stage ruling listed => ?_, standing.eligible, standing.target, legs⟩
      obtain there | there := List.mem_append.mp listed
      · exact ⟨there, standing.allowed stage ruling there⟩
      · obtain there := (List.mem_cons.mp there).resolve_left (fun same => nomatch same)
        exact (late _ there rfl).elim
    · intro strict error other listed _
      obtain there | there := List.mem_append.mp listed
      · exact standing.readable strict error there
      · obtain there := (List.mem_cons.mp there).resolve_left (fun same => nomatch same)
        exact late _ there rfl
    · intro held listed
      obtain there | there := List.mem_append.mp listed
      · obtain ⟨id, is, same⟩ := early _ there rfl
        cases same
        obtain ⟨event, one, stated⟩ := answer.resolved held is
        exact ⟨event, (filtered held).trans one, stated⟩
      · obtain there := (List.mem_cons.mp there).resolve_left (fun same => nomatch same)
        exact (late _ there rfl).elim
    · intro charge money listed is declared
      obtain ⟨held, error, settled, stated⟩ := answer.committed charge money ((receipts charge).mp listed) is declared
      exact ⟨held, error, List.mem_append_right _ (List.mem_cons_of_mem _ settled), stated⟩

end

end CommonMeasure.Purchase
