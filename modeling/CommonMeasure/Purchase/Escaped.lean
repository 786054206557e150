import CommonMeasure.Purchase.Settled

namespace CommonMeasure.Purchase

open Admission

variable {T : Texts} {host_of : String → String} {setting : Setting} {world : World}

/-! ### What is owed -/

def Owes (setting : Setting) (reservation : Option String) (charge : AcquisitionCharge) : Prop :=
  ∃ context ∈ setting.allowance, reservation.isSome = true ∨ charge.money.isSome = true ∧ context.declared = true

def Backed (setting : Setting) (reservation : Option String) : Prop :=
  reservation.isSome = true → setting.allowance.isSome = true

section

variable {reservation : Option String} {charge : AcquisitionCharge} {rest : List Event} {exit : Exit}

theorem answer_unowed (backed : Backed setting reservation) (free : ¬Owes setting reservation charge)
    (only : ∀ other, .receipt other ∈ rest → other = charge) : Answer T setting reservation rest exit := by
  constructor
  · rintro held rfl
    obtain ⟨context, is⟩ := Option.isSome_iff_exists.mp (backed rfl)
    exact (free ⟨context, is, .inl rfl⟩).elim
  · rintro other money listed is ⟨context, held, declared⟩
    rw [only other listed] at is
    exact (free ⟨context, held, .inr ⟨by rw [is]; rfl, declared⟩⟩).elim

theorem answer_iff_stated (error : Option String) (owes : Owes setting reservation charge)
    (one : ∀ held, reservation = some held →
      rest.filter (Event.resolves held) = [.settled reservation charge.money error])
    (listed : .settled reservation charge.money error ∈ rest) (receipt : .receipt charge ∈ rest)
    (only : ∀ other, .receipt other ∈ rest → other = charge)
    (sole : ∀ held observed error', .settled held observed error' ∈ rest →
      Event.settled held observed error' = .settled reservation charge.money error) :
    Answer T setting reservation rest exit ↔ Stated T (.settled reservation charge.money error) exit := by
  constructor
  · intro answer
    obtain ⟨context, is, held | ⟨charged, declared⟩⟩ := owes
    · obtain ⟨id, rfl⟩ := Option.isSome_iff_exists.mp held
      obtain ⟨event, same, stated⟩ := answer.resolved id rfl
      rw [one id rfl, List.cons.injEq] at same
      rw [same.1]
      exact stated
    · obtain ⟨money, money_⟩ := Option.isSome_iff_exists.mp charged
      obtain ⟨held, error', settled, stated⟩ := answer.committed charge money receipt money_ ⟨context, is, declared⟩
      rw [← sole held (some money) error' settled]
      exact stated
  · intro stated
    refine ⟨fun held is => ⟨_, one held is, stated⟩, fun other money there is _ => ?_⟩
    rw [only other there] at is
    rw [is] at listed stated
    exact ⟨reservation, error, listed, stated⟩

theorem answer_settled {error : Option String} (owes : Owes setting reservation charge)
    (shape : rest = [.receipt charge, .settled reservation charge.money error] ∨
      rest = [.receipt charge, .settled reservation charge.money error, .sealed .response] ∨
      rest = [.receipt charge, .sealed .response, .settled reservation charge.money error]) :
    Answer T setting reservation rest exit ↔ Stated T (.settled reservation charge.money error) exit := by
  have one : ∀ held, reservation = some held →
      rest.filter (Event.resolves held) = [.settled reservation charge.money error] := by
    intro held is
    rw [is]
    obtain rfl | rfl | rfl := shape <;> simp [Event.resolves, is]
  refine answer_iff_stated error owes one ?_ ?_ ?_ ?_ <;> obtain rfl | rfl | rfl := shape <;> simp

theorem answer_iff_unowed (backed : Backed setting reservation) (receipt : .receipt charge ∈ rest)
    (only : ∀ other, .receipt other ∈ rest → other = charge)
    (none_ : ∀ held, rest.filter (Event.resolves held) = [])
    (unsettled : ∀ held observed error, .settled held observed error ∉ rest) :
    Answer T setting reservation rest exit ↔ ¬Owes setting reservation charge := by
  refine ⟨fun answer owes => ?_, fun free => answer_unowed backed free only⟩
  obtain ⟨context, is, held | ⟨charged, declared⟩⟩ := owes
  · obtain ⟨id, rfl⟩ := Option.isSome_iff_exists.mp held
    obtain ⟨event, same, _⟩ := answer.resolved id rfl
    rw [none_ id] at same
    cases same
  · obtain ⟨money, money_⟩ := Option.isSome_iff_exists.mp charged
    obtain ⟨held, error, settled, _⟩ := answer.committed charge money receipt money_ ⟨context, is, declared⟩
    exact unsettled held (some money) error settled

theorem stated_planned {event : Event} {gaps : List String} (among : ∀ statement ∈ event.statement T, statement ∈ gaps) :
    Stated T event (.planned gaps) := fun statement is => ⟨gaps, rfl, among statement is⟩

theorem stated_failed {reservation : Option String} {observed : Option Money} {error : Option String} {failure : String} :
    Stated T (.settled reservation observed error) (.failed failure) ↔ error = none := by
  constructor
  · intro stated
    cases error with
    | none => rfl
    | some error =>
      obtain ⟨gaps, planned, _⟩ := stated _ rfl
      cases planned
  · rintro rfl _ is
    cases is

theorem account_owed (owes : Owes setting reservation charge) :
    account T setting world reservation charge =
      ⟨[.settled reservation charge.money (fault world.ledger.settle)],
        ((fault world.ledger.settle).map (settlement_failure T charge.money reservation)).toList⟩ := by
  obtain ⟨context, is, owed⟩ := owes
  rw [account, Option.mem_def.mp is]
  unfold settle_success
  cases reservation with
  | some held => rfl
  | none =>
    obtain held | ⟨charged, declared⟩ := owed
    · cases held
    · dsimp only
      rw [charged, declared]
      rfl

theorem account_unowed (backed : Backed setting reservation) (free : ¬Owes setting reservation charge) :
    account T setting world reservation charge = ⟨[], []⟩ := by
  unfold account
  cases is : setting.allowance with
  | none => rfl
  | some context =>
    unfold settle_success
    cases reservation with
    | some held => exact (free ⟨context, is, .inl rfl⟩).elim
    | none =>
      dsimp only
      rw [if_neg]
      intro both
      obtain ⟨charged, declared⟩ := Bool.and_eq_true_iff.mp both
      exact free ⟨context, is, .inr ⟨charged, declared⟩⟩

theorem answer_released {gaps : List String} (backed : Backed setting reservation)
    (among : ∀ gap ∈ (unaccount setting world reservation).gaps, gap ∈ gaps) :
    Answer T setting reservation (unaccount setting world reservation).events (.planned gaps) := by
  unfold unaccount at among ⊢
  cases reservation with
  | none =>
    cases setting.allowance <;> exact ⟨fun _ held => (nomatch held), fun _ _ held => (nomatch held)⟩
  | some held =>
    obtain ⟨context, is⟩ := Option.isSome_iff_exists.mp (backed rfl)
    rw [is] at among ⊢
    refine ⟨?_, ?_⟩
    · rintro _ ⟨⟩
      refine ⟨.released held (fault world.ledger.release), by simp [release_after_failure, Event.resolves],
        stated_planned fun statement is => among statement ?_⟩
      cases failed : world.ledger.release with
      | ok => rw [failed] at is; cases is
      | error error =>
        rw [failed] at is
        cases is
        simp [release_after_failure, failed, fault]
    · intro charge money listed
      cases List.mem_singleton.mp listed

theorem unaccount_follows : ∀ event ∈ (unaccount setting world reservation).events, event.follows = true := by
  unfold unaccount
  intro event listed
  split at listed
  · rw [List.mem_singleton.mp listed]
    rfl
  · cases listed

end

def Unsealed (world : World) : Prop := ∃ error, world.write .response = .error error

theorem seal_response_sealed {gaps : List String} {then_ : Settlement} (sealed : ¬Unsealed world) :
    seal_response world gaps then_ =
      ⟨.sealed .response :: then_.events, .planned (gaps ++ then_.gaps ++ world.later)⟩ := by
  unfold seal_response
  split
  · rename_i error failed
    exact (sealed ⟨error, failed⟩).elim
  · rfl

theorem seal_response_unsealed {gaps : List String} {then_ : Settlement} (unsealed : Unsealed world) :
    ∃ error, seal_response world gaps then_ = ⟨[], .failed error⟩ := by
  obtain ⟨error, failed⟩ := unsealed
  exact ⟨error, by rw [seal_response, failed]⟩

section

variable {before : List Event} {reservation : Option String} {supplier : Supplier}

def PurchaseLost (setting : Setting) (world : World) (supplier : Supplier) (reservation : Option String) : Prop :=
  ∃ settled, supplier.answer .confirm = .ok settled ∧ Unsealed world ∧ Owes setting reservation settled.charge ∧
    ∃ error, world.ledger.settle = .error error

theorem buy_kept (standing : Standing T host_of setting before reservation) (backed : Backed setting reservation)
    (legs : .sealed .inspect ∈ before ∧ .sealed .preview ∈ before ∧
      ∃ quote, .ruled .purchase (purchase_ruling T setting quote) ∈ before) :
    Kept T host_of setting ((buy T setting world supplier reservation).after before) ↔
      ¬PurchaseLost setting world supplier reservation := by
  unfold buy PurchaseLost
  cases answered : supplier.answer .confirm with
  | error error =>
    dsimp only [Passage.after]
    rw [kept_iff_answer standing unaccount_follows fun _ => legs]
    refine iff_of_true (answer_released backed fun gap listed => List.mem_append_left _ listed) ?_
    rintro ⟨settled, same, _⟩
    cases same
  | ok settled =>
    have lost : (∃ other, Except.ok settled = (.ok other : Except String Acquisition) ∧ Unsealed world ∧
        Owes setting reservation other.charge ∧ ∃ error, world.ledger.settle = .error error) ↔
        Unsealed world ∧ Owes setting reservation settled.charge ∧ ∃ error, world.ledger.settle = .error error :=
      ⟨fun ⟨_, same, rest⟩ => by cases same; exact rest, fun rest => ⟨settled, rfl, rest⟩⟩
    rw [lost]
    dsimp only
    by_cases owes : Owes setting reservation settled.charge
    · rw [account_owed owes]
      by_cases unsealed : Unsealed world
      · obtain ⟨error, is⟩ := @seal_response_unsealed world
          (((fault world.ledger.settle).map (settlement_failure T settled.charge.money reservation)).toList ++
            coverage_gap setting settled) ⟨[], []⟩ unsealed
        rw [is]
        show Kept T host_of setting ⟨before ++ .dispatched .confirm :: [.receipt settled.charge,
          .settled reservation settled.charge.money (fault world.ledger.settle)], .failed error⟩ ↔ _
        rw [kept_iff_answer standing (by simp [Event.follows]) fun _ => legs, answer_settled owes (.inl rfl), stated_failed]
        cases world.ledger.settle <;> simp [fault, owes, unsealed]
      · rw [seal_response_sealed unsealed]
        show Kept T host_of setting ⟨before ++ .dispatched .confirm :: [.receipt settled.charge,
          .settled reservation settled.charge.money (fault world.ledger.settle), .sealed .response], .planned _⟩ ↔ _
        rw [kept_iff_answer standing (by simp [Event.follows]) fun _ => legs, answer_settled owes (.inr (.inl rfl))]
        refine iff_of_true (stated_planned fun statement is => ?_) fun lost => unsealed lost.1
        cases failed : world.ledger.settle with
        | ok => rw [failed] at is; cases is
        | error error =>
          rw [failed] at is
          cases is
          simp [fault]
    · rw [account_unowed backed owes]
      refine iff_of_true ?_ fun lost => owes lost.2.1
      by_cases unsealed : Unsealed world
      · obtain ⟨error, is⟩ := @seal_response_unsealed world ([] ++ coverage_gap setting settled) ⟨[], []⟩ unsealed
        rw [is]
        exact (kept_iff_answer standing (by simp [Event.follows]) fun _ => legs).mpr
          (answer_unowed backed owes (by simp))
      · rw [seal_response_sealed unsealed]
        exact (kept_iff_answer standing (by simp [Event.follows]) fun _ => legs).mpr
          (answer_unowed backed owes (by simp))

theorem callOf_some (setting : Setting) : ∃ call, callOf setting = some call ∧ call ≠ .confirm ∧
    (call.spends = true ↔ setting.capability = .search ∨ setting.capability = .fetch) := by
  have planned := setting.planned
  unfold planned_capability at planned
  cases target : setting.fetch_target with
  | some url =>
    rw [target, Option.isSome_some, if_pos rfl] at planned
    split at planned
    · have is := (Option.some.inj planned).symm
      exact ⟨.fetch, by rw [callOf, is, target]; rfl, by decide, by simp [Call.spends, is]⟩
    · cases planned
  | none =>
    rw [target, Option.isSome_none, if_neg Bool.false_ne_true] at planned
    have listed := List.mem_of_find?_eq_some planned
    simp only [List.mem_cons, List.not_mem_nil, or_false] at listed
    obtain is | is | is := listed
    · exact ⟨.search, by rw [callOf, is], by decide, by simp [Call.spends, is]⟩
    · exact ⟨.query, by rw [callOf, is], by decide, by simp [Call.spends, is]⟩
    · exact ⟨.invoke, by rw [callOf, is], by decide, by simp [Call.spends, is]⟩

def DispatchLost (setting : Setting) (world : World) (supplier : Supplier) (reservation : Option String) : Prop :=
  ∃ call acquisition, callOf setting = some call ∧ supplier.answer call = .ok acquisition ∧ Unsealed world ∧
    Owes setting reservation acquisition.charge

theorem acquire_kept (standing : Standing T host_of setting before reservation) (backed : Backed setting reservation)
    (ungated : ¬(setting.capability = .search ∨ setting.capability = .fetch) → reservation = none) :
    Kept T host_of setting ((acquire T setting world supplier reservation).after before) ↔
      ¬DispatchLost setting world supplier reservation := by
  obtain ⟨call, called, different, spends⟩ := callOf_some setting
  have legs : call = .confirm → .sealed .inspect ∈ before ∧ .sealed .preview ∈ before ∧
      ∃ quote, .ruled .purchase (purchase_ruling T setting quote) ∈ before := fun same => (different same).elim
  unfold acquire DispatchLost
  rw [called]
  dsimp only
  cases answered : supplier.answer call with
  | error error =>
    dsimp only [Passage.after]
    rw [kept_iff_answer standing unaccount_follows legs]
    refine iff_of_true (answer_released backed fun gap listed => List.mem_cons_of_mem _ listed) ?_
    rintro ⟨other, acquisition, same, ok, _⟩
    cases same
    rw [answered] at ok
    cases ok
  | ok acquisition =>
    have lost : (∃ other acquisition', some call = some other ∧ supplier.answer other = .ok acquisition' ∧
        Unsealed world ∧ Owes setting reservation acquisition'.charge) ↔
        Unsealed world ∧ Owes setting reservation acquisition.charge := by
      constructor
      · rintro ⟨_, other, ⟨⟩, ok, rest⟩
        rw [answered] at ok
        cases ok
        exact rest
      · exact fun rest => ⟨call, acquisition, rfl, answered, rest⟩
    rw [lost]
    dsimp only
    -- A call that costs nothing owes nothing.
    have gate : Owes setting reservation acquisition.charge → setting.capability = .search ∨ setting.capability = .fetch := by
      rintro ⟨context, _, owed⟩
      by_contra free
      have unspent : call.spends = false := Bool.eq_false_iff.mpr fun spent => free (spends.mp spent)
      rw [ungated free, supplier.free call acquisition unspent answered] at owed
      obtain held | ⟨charged, _⟩ := owed
      · cases held
      · cases charged
    by_cases unsealed : Unsealed world
    · obtain ⟨error, is⟩ := @seal_response_unsealed world (capped setting supplier ++ coverage_gap setting acquisition)
        (account_direct T setting world reservation acquisition.charge) unsealed
      rw [is]
      show Kept T host_of setting ⟨before ++ .dispatched call :: [.receipt acquisition.charge], .failed error⟩ ↔ _
      have receipt : Event.receipt acquisition.charge ∈ [Event.receipt acquisition.charge] := List.mem_singleton_self _
      rw [kept_iff_answer standing (by simp [Event.follows]) legs,
        answer_iff_unowed backed receipt (by simp) (by simp [Event.resolves]) (by simp)]
      simp [unsealed]
    · rw [seal_response_sealed unsealed]
      refine iff_of_true ?_ fun lost => unsealed lost.1
      by_cases owes : Owes setting reservation acquisition.charge
      · rw [account_direct, if_pos (gate owes), account_owed owes]
        show Kept T host_of setting ⟨before ++ .dispatched call :: [.receipt acquisition.charge, .sealed .response,
          .settled reservation acquisition.charge.money (fault world.ledger.settle)], .planned _⟩
        rw [kept_iff_answer standing (by simp [Event.follows]) legs, answer_settled owes (.inr (.inr rfl))]
        refine stated_planned fun statement is => ?_
        cases failed : world.ledger.settle with
        | ok => rw [failed] at is; cases is
        | error error =>
          rw [failed] at is
          cases is
          simp [fault]
      · have nothing : account_direct T setting world reservation acquisition.charge = ⟨[], []⟩ := by
          unfold account_direct
          split
          · exact account_unowed backed owes
          · rfl
        rw [nothing]
        exact (kept_iff_answer standing (by simp [Event.follows]) legs).mpr (answer_unowed backed owes (by simp))

end

end CommonMeasure.Purchase
