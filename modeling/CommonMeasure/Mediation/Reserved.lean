import CommonMeasure.Mediation.Fetch
import CommonMeasure.Mediation.Search
import CommonMeasure.Purchase.Escaped

/-!
# What a mediated call reserves is resolved

The gate is asked once and what it holds is carried in one place, so each way out past the gate writes one line for it: the receipt's
or the release's.
-/

namespace CommonMeasure.Mediation

open Admission (Ruling Money PolicyMode)
open Purchase (AllowanceContext GateDecision Ledger pre_dispatch)

variable {D R I S : Type} {T : Admission.Texts}

/-! ### What is written of a reservation -/

def Event.resolves (id : String) : Event D R I → Bool
  | .ledger event => event.resolves id
  | _ => false

def Event.reserves : Event D R I → Option String
  | .ledger (.reserved id) => some id
  | _ => none

def Event.quiet : Event D R I → Bool
  | .ledger _ => false
  | _ => true

def Resolved (events : List (Event D R I)) : Prop :=
  (events.filterMap Event.reserves).length ≤ 1 ∧
    ∀ id, some id ∈ events.map Event.reserves → (events.filter (·.resolves id)).length = 1

structure Follows (reservation : Option String) (events : List (Event D R I)) : Prop where
  reserves : events.filterMap Event.reserves = []
  resolves : ∀ id, reservation = some id → (events.filter (·.resolves id)).length = 1

theorem quiet_reserves {events : List (Event D R I)} (quiet : ∀ event ∈ events, event.quiet = true) :
    events.filterMap Event.reserves = [] := by
  rw [List.filterMap_eq_nil_iff]
  intro event member
  have is := quiet event member
  cases event <;> first | rfl | cases is

theorem quiet_resolves {events : List (Event D R I)} (quiet : ∀ event ∈ events, event.quiet = true) (id : String) :
    events.filter (·.resolves id) = [] := by
  rw [List.filter_eq_nil_iff]
  intro event member
  have is := quiet event member
  cases event <;> first | exact Bool.false_ne_true | cases is

theorem Follows.around {reservation : Option String} {before events more : List (Event D R I)}
    (follows : Follows reservation events)
    (quiet : ∀ event ∈ before, event.quiet = true) (still : ∀ event ∈ more, event.quiet = true) :
    Follows reservation (before ++ (events ++ more)) := by
  constructor
  · simp [List.filterMap_append, quiet_reserves quiet, quiet_reserves still, follows.reserves]
  · intro id held
    simp [List.filter_append, quiet_resolves quiet id, quiet_resolves still id, follows.resolves id held]

theorem follows_quiet {events : List (Event D R I)} (quiet : ∀ event ∈ events, event.quiet = true) : Follows none events :=
  ⟨quiet_reserves quiet, fun _ held => nomatch held⟩

theorem gate_reserves (decision : GateDecision) :
    (decision.events.map .ledger : List (Event D R I)).filterMap Event.reserves = decision.reservation.toList := by
  cases decision with
  | mk reservation ruling fault => cases reservation <;> cases fault <;> rfl

theorem gate_resolves (decision : GateDecision) (id : String) :
    (decision.events.map .ledger : List (Event D R I)).filter (·.resolves id) = [] := by
  cases decision with
  | mk reservation ruling fault => cases reservation <;> cases fault <;> rfl

theorem resolved_gate {decision : GateDecision} {events : List (Event D R I)} (follows : Follows decision.reservation events) :
    Resolved ((decision.events.map .ledger : List (Event D R I)) ++ events) := by
  have reserves : ((decision.events.map .ledger : List (Event D R I)) ++ events).filterMap Event.reserves =
      decision.reservation.toList := by
    rw [List.filterMap_append, gate_reserves, follows.reserves, List.append_nil]
  constructor
  · rw [reserves]
    cases decision.reservation with
    | none => exact Nat.zero_le 1
    | some reservation => exact Nat.le_refl 1
  · intro id member
    obtain ⟨event, inside, is⟩ := List.mem_map.mp member
    have listed : id ∈ decision.reservation.toList := reserves ▸ List.mem_filterMap.mpr ⟨event, inside, is⟩
    rw [List.filter_append, gate_resolves, List.nil_append]
    exact follows.resolves id (Option.mem_toList.mp listed)

theorem resolved_none {events : List (Event D R I)} (none_ : events.filterMap Event.reserves = []) : Resolved events := by
  refine ⟨by simp [none_], fun id member => ?_⟩
  obtain ⟨event, inside, is⟩ := List.mem_map.mp member
  have listed : id ∈ events.filterMap Event.reserves := List.mem_filterMap.mpr ⟨event, inside, is⟩
  rw [none_] at listed
  cases listed

theorem follows_settled (reservation : String) (observed : Option Money) (fault : Option String) :
    Follows (some reservation) (ledger_events [.settled (some reservation) observed fault] : List (Event D R I)) := by
  cases fault <;>
    exact ⟨rfl, fun id held => by
      obtain rfl := Option.some.inj held
      simp [ledger_events, gap_of, Event.resolves, Purchase.Event.resolves]⟩

theorem follows_released (reservation : String) (fault : Option String) :
    Follows (some reservation) (ledger_events [.released reservation fault] : List (Event D R I)) := by
  cases fault <;>
    exact ⟨rfl, fun id held => by
      obtain rfl := Option.some.inj held
      simp [ledger_events, gap_of, Event.resolves, Purchase.Event.resolves]⟩

theorem follows_release_mediated (ledger : Ledger) (decision : GateDecision) :
    Follows decision.reservation (ledger_events (release_mediated ledger decision) : List (Event D R I)) := by
  unfold release_mediated
  cases decision.reservation with
  | none => exact follows_quiet fun event member => (nomatch member)
  | some reservation => exact follows_released reservation _

theorem follows_settle_mediated (context : AllowanceContext) (ledger : Ledger) (decision : GateDecision)
    (charge : Admission.AcquisitionCharge) :
    Follows decision.reservation (ledger_events (settle_mediated T context ledger decision charge) : List (Event D R I)) := by
  unfold settle_mediated Purchase.settle_success
  cases decision.reservation with
  | some reservation => exact follows_settled reservation _ _
  | none =>
    simp only
    split
    · cases Purchase.fault ledger.settle <;> exact ⟨rfl, fun _ held => nomatch held⟩
    · exact follows_quiet fun event member => (nomatch member)

def Blocked (price : Option Money) (decision : GateDecision) : Prop :=
  decision.fault.isSome = true ∨ (∃ ruling, decision.ruling = some ruling ∧ ruling.is_refusal = true) ∨
    price.isSome = true ∧ decision.reservation = none

theorem blocked_refuses {context : AllowanceContext} {ledger : Ledger} {price : Option Money}
    (declared : context.declared = true)
    (blocked : Blocked price (pre_dispatch T context ledger .strict price)) :
    ∃ ruling, (pre_dispatch T context ledger .strict price).ruling = some ruling ∧ ruling.is_refusal = true := by
  rcases blocked with faulted | refused | ⟨priced, unreserved⟩
  · obtain ⟨fault, is⟩ := Option.isSome_iff_exists.mp faulted
    exact (@Purchase.pre_dispatch_coherent T context ledger .strict price).faulted fault is rfl
  · exact refused
  · obtain ⟨money, rfl⟩ := Option.isSome_iff_exists.mp priced
    simp only [pre_dispatch, declared, Bool.not_true, Bool.false_eq_true, if_false] at unreserved ⊢
    unfold Purchase.reserve_decision at unreserved ⊢
    cases outcome : ledger.reserve context.declared (decide (PolicyMode.strict ≠ .strict)) with
    | error error => exact ⟨_, rfl, rfl⟩
    | ok outcome_ =>
      rw [outcome] at unreserved
      cases outcome_ with
      | nothingDeclared =>
        rw [declared] at outcome
        simp only [Ledger.reserve, Bool.not_true, Bool.false_eq_true, if_false] at outcome
        split at outcome
        · cases outcome
        · split at outcome
          · cases outcome
          · split at outcome
            · cases outcome
            · split at outcome <;> cases outcome
      | reserved reservation => cases unreserved
      | reservedWithBreach reservation checks => cases unreserved
      | declined checks => exact ⟨_, rfl, rfl⟩

theorem refused_follows {context : AllowanceContext} {ledger : Ledger} {mode : PolicyMode} {price : Option Money}
    {ruling : Ruling}
    (is : (pre_dispatch T context ledger mode price).ruling = some ruling) (refusal : ruling.is_refusal = true)
    {events : List (Event D R I)} (quiet : ∀ event ∈ events, event.quiet = true) :
    Follows (pre_dispatch T context ledger mode price).reservation events := by
  rw [(@Purchase.pre_dispatch_coherent T context ledger mode price).refused ruling is refusal]
  exact follows_quiet quiet

section

variable {server : Server} {o : Occasion D R I S} {window : FetchWindow} {url : String} {authorised : Option GateDecision}
variable {breach : Option String} {a : Answered D} {after : D × List Spoken}

theorem told_quiet {facts : FetchFacts D R I} {told : AgentText} :
    ∀ event ∈ (record_told facts told : Passage D R I S).events, event.quiet = true := by
  intro event member
  rw [List.mem_singleton.mp member]
  rfl

theorem recorded_quiet {facts : FetchFacts D R I} {fetched : Fetched S} :
    ∀ event ∈ (recorded o facts fetched).events, event.quiet = true := by
  intro event member
  rw [List.mem_singleton.mp member]
  rfl

theorem saved_quiet {passage : Passage D R I S} {bytes : Bytes} (quiet : ∀ event ∈ passage.events, event.quiet = true) :
    ∀ event ∈ (passage.after [.saved bytes]).events, event.quiet = true := by
  intro event member
  rcases List.mem_cons.mp member with rfl | later
  · rfl
  · exact quiet event later

theorem deliver_text_quiet (text : List Char) (release : Option (R × Spoken)) :
    ∀ event ∈ (deliver_text server o a after text release).events, event.quiet = true := by
  unfold deliver_text
  simp only
  split
  · exact told_quiet
  split
  · exact told_quiet
  split
  · exact told_quiet
  · exact recorded_quiet

theorem deliver_file_quiet (kind : BodyKind) : ∀ event ∈ (deliver_file server o a kind after).events, event.quiet = true := by
  unfold deliver_file
  simp only
  split
  · exact told_quiet
  split
  · split
    · exact saved_quiet recorded_quiet
    · exact told_quiet
  · exact recorded_quiet

theorem deliver_quiet : ∀ event ∈ (deliver server o a).events, event.quiet = true := by
  unfold deliver
  simp only
  split
  · split
    · exact deliver_text_quiet _ _
    · exact told_quiet
  · split
    · exact deliver_text_quiet _ _
    · exact deliver_file_quiet _

theorem answered_outside_quiet (gap : Option (String × AgentText)) :
    ∀ event ∈ (answered_outside server o a gap).events, event.quiet = true := by
  unfold answered_outside
  simp only
  split
  · exact told_quiet
  · exact told_quiet

theorem release_follows : Follows (authorised.bind (·.reservation)) (release_authorisation o authorised).2 := by
  cases authorised with
  | none => exact follows_quiet fun event member => (nomatch member)
  | some decision => exact follows_release_mediated o.ledger decision

theorem settle_follows (held : authorised.isSome = true → server.allowance.isSome = true) :
    Follows (authorised.bind (·.reservation)) (settle_authorisation T server o authorised).2 := by
  unfold settle_authorisation
  cases authorised with
  | none => exact follows_quiet fun event member => (nomatch member)
  | some decision =>
    obtain ⟨context, is⟩ := Option.isSome_iff_exists.mp (held rfl)
    rw [is]
    exact follows_settle_mediated context o.ledger decision _

theorem released_follows {facts : FetchFacts D R I} {told : AgentText} :
    Follows (authorised.bind (·.reservation))
      ((record_told facts told : Passage D R I S).after (release_authorisation o authorised).2).events :=
  @Follows.around _ _ _ _ [] _ _ release_follows (fun _ member => (nomatch member)) (@told_quiet _ _ _ S facts told)

theorem request_follows (held : authorised.isSome = true → server.allowance.isSome = true) :
    Follows (authorised.bind (·.reservation)) (request T server o url window authorised breach).events := by
  unfold request
  simp only
  have asked : ∀ event ∈ ((follow o url).urls.map .requested : List (Event D R I)), event.quiet = true := by
    intro event member
    obtain ⟨_, _, rfl⟩ := List.mem_map.mp member
    rfl
  split
  · exact release_follows.around asked told_quiet
  · exact release_follows.around asked told_quiet
  · exact release_follows.around asked told_quiet
  · exact release_follows.around asked told_quiet
  · exact release_follows.around asked told_quiet
  · refine (settle_follows held).around asked ?_
    split
    · exact deliver_quiet
    · exact answered_outside_quiet _

theorem rule_follows (held : authorised.isSome = true → server.allowance.isSome = true) :
    Follows (authorised.bind (·.reservation)) (rule_and_take_turn T server o url window authorised breach).events := by
  unfold rule_and_take_turn
  simp only
  split
  · exact released_follows
  split
  · exact released_follows
  · exact request_follows held

theorem authorise_resolved : Resolved (authorise T server o url window).events := by
  have free : Resolved (rule_and_take_turn T server o url window none none).events :=
    resolved_none (@rule_follows _ _ _ _ T server o window url none none fun is => (nomatch is)).reserves
  unfold authorise
  cases o.quoted_price with
  | none => exact free
  | some price =>
    cases allowance : server.allowance with
    | none => exact free
    | some context =>
      have held {decision : GateDecision} {breach : Option String} :
          Follows decision.reservation (rule_and_take_turn T server o url window (some decision) breach).events :=
        @rule_follows _ _ _ _ T server o window url (some decision) breach fun _ => by rw [allowance]; rfl
      simp only
      split
      · refine resolved_gate ?_
        split
        · exact held
        · rename_i ruling is
          split
          · rename_i refusal
            exact refused_follows is refusal told_quiet
          · exact held
      · exact resolved_none rfl

theorem fetch_resolved : Resolved (fetch_unquoted T server o).events := by
  have quiet {passage : Passage D R I S} (quiet : ∀ event ∈ passage.events, event.quiet = true) : Resolved passage.events :=
    resolved_none (quiet_reserves quiet)
  unfold fetch_unquoted
  split
  · exact resolved_none rfl
  · exact resolved_none rfl
  · exact resolved_none rfl
  · exact resolved_none rfl
  · exact resolved_none rfl
  · unfold cross
    split
    · exact quiet told_quiet
    split
    · exact quiet told_quiet
    split
    · exact resolved_none rfl
    split
    · exact authorise_resolved
    · exact quiet told_quiet

theorem authorise_unblocked {price : Money} {context : AllowanceContext} (strict : server.mode = .strict)
    (priced : o.quoted_price = some price) (allowance : server.allowance = some context) {at_ : String}
    (asked : .requested at_ ∈ (authorise T server o url window).events) :
    server.home = true ∧ ¬Blocked (some price) (pre_dispatch T context o.ledger .strict (some price)) := by
  unfold authorise at asked
  rw [priced, allowance] at asked
  simp only at asked
  split at asked
  · rename_i home
    refine ⟨home, fun blocked => ?_⟩
    obtain ⟨ruling, is, refusal⟩ := blocked_refuses (server.declared context allowance) blocked
    rw [strict, is] at asked
    simp only [refusal, if_true] at asked
    rcases List.mem_append.mp asked with gate | later
    · obtain ⟨_, _, same⟩ := List.mem_map.mp gate
      cases same
    · cases List.mem_singleton.mp later
  · cases asked

theorem fetch_unblocked {price : Money} {context : AllowanceContext} (strict : server.mode = .strict)
    (priced : o.quoted_price = some price) (allowance : server.allowance = some context) {at_ : String}
    (asked : .requested at_ ∈ (fetch_unquoted T server o).events) :
    server.home = true ∧ ¬Blocked (some price) (pre_dispatch T context o.ledger .strict (some price)) := by
  unfold fetch_unquoted at asked
  split at asked
  · cases asked
  · cases asked
  · cases asked
  · cases asked
  · cases asked
  · unfold cross at asked
    split at asked
    · cases List.mem_singleton.mp asked
    split at asked
    · cases List.mem_singleton.mp asked
    split at asked
    · cases asked
    split at asked
    · exact authorise_unblocked strict priced allowance asked
    · cases List.mem_singleton.mp asked

end

/-! ### A search -/

section

variable {o : SearchOccasion}

theorem account_follows (call : Purchase.Call) (answer : Except String Purchase.Acquisition)
    (consulted : Option (AllowanceContext × GateDecision)) :
    Follows (consulted.bind (·.2.reservation)) (account_search T o call answer consulted : SearchPassage D R I).events := by
  have called : ∀ event ∈ ([.supplied call] : List (Event D R I)), event.quiet = true := by
    intro event member
    rw [List.mem_singleton.mp member]
    rfl
  have around {reservation : Option String} {events : List (Event D R I)} (follows : Follows reservation events) :
      Follows reservation ([.supplied call] ++ events) := by
    have whole := @Follows.around _ _ _ _ _ _ [] follows called fun _ member => (nomatch member)
    rwa [List.append_nil] at whole
  unfold account_search
  cases answer with
  | error error =>
    cases consulted with
    | none => exact around (follows_quiet fun event member => (nomatch member))
    | some gate => exact around (follows_release_mediated o.ledger gate.2)
  | ok acquisition =>
    cases consulted with
    | none => exact around (follows_quiet fun event member => (nomatch member))
    | some gate => exact around (follows_settle_mediated gate.1 o.ledger gate.2 acquisition.charge)

theorem dispatch_follows (adapter : Adapter) (mediated : Option Purchase.ProviderCapability)
    (gate : Option (AllowanceContext × GateDecision)) (some_ : gate.isSome = true → mediated = some .search) :
    Follows (gate.bind (·.2.reservation)) (dispatch T o adapter mediated gate : SearchPassage D R I).events := by
  unfold dispatch
  split
  · exact account_follows _ _ _
  · exact account_follows _ _ _
  · rename_i other _
    cases gate with
    | none => exact follows_quiet fun event member => (nomatch member)
    | some gate => exact (other (some_ rfl)).elim

theorem gated_resolved (adapter : Adapter) : Resolved (gated_search T o adapter : SearchPassage D R I).events := by
  have ungated (mediated : Option Purchase.ProviderCapability) : Resolved (dispatch T o adapter mediated none : SearchPassage D R I).events :=
    resolved_none (dispatch_follows adapter mediated none fun is => (nomatch is)).reserves
  unfold gated_search
  split
  · rename_i context mediates allowance
    split
    · refine resolved_gate ?_
      split
      · rename_i refuses
        obtain ⟨ruling, is, refusal⟩ := (Option.any_eq_true _ _).mp refuses
        exact refused_follows is refusal fun event member => (nomatch member)
      · exact dispatch_follows adapter _ (some (context, _)) fun _ => rfl
    · exact resolved_none rfl
  · exact ungated _

theorem governed_cases {holds : SearchPassage D R I → Prop} (refused : ∀ error, holds ⟨[], .error error⟩)
    (gated : ∀ adapter, o.supplier = .ok adapter → holds (gated_search T o adapter)) : holds (governed_search T o) := by
  unfold governed_search
  split
  · exact refused _
  · exact refused _
  · exact refused _
  · simp only
    split
    · exact refused _
    split
    · exact refused _
    split
    · exact refused _
    · exact refused _
    · rename_i adapter is
      exact gated adapter is

theorem governed_resolved : Resolved (governed_search T o : SearchPassage D R I).events :=
  @governed_cases _ _ _ T o (fun passage => Resolved passage.events) (fun _ => resolved_none rfl) fun adapter _ => gated_resolved adapter

def Event.call : Event D R I → Option Purchase.Call
  | .supplied call => some call
  | _ => none

def Called (events : List (Event D R I)) : Prop :=
  events.filterMap Event.call = [] ∨ events.filterMap Event.call = [.search] ∨ events.filterMap Event.call = [.query]

theorem ledger_uncalled (events : List Purchase.Event) :
    (ledger_events events : List (Event D R I)).filterMap Event.call = [] := by
  rw [List.filterMap_eq_nil_iff]
  intro event member
  rcases mem_ledger_events member with ⟨written, rfl⟩ | ⟨reservation, observed, rfl⟩
  · rfl
  · rfl

theorem gate_uncalled (decision : GateDecision) :
    (decision.events.map .ledger : List (Event D R I)).filterMap Event.call = [] := by
  cases decision with
  | mk reservation ruling fault => cases reservation <;> cases fault <;> rfl

theorem account_called (call : Purchase.Call) (answer : Except String Purchase.Acquisition)
    (consulted : Option (AllowanceContext × GateDecision)) :
    (account_search T o call answer consulted : SearchPassage D R I).events.filterMap Event.call = [call] := by
  unfold account_search
  cases answer with
  | error error =>
    cases consulted with
    | none => rfl
    | some gate =>
      show call :: (ledger_events (release_mediated o.ledger gate.2) : List (Event D R I)).filterMap Event.call = [call]
      rw [ledger_uncalled]
  | ok acquisition =>
    cases consulted with
    | none => rfl
    | some gate =>
      show call :: (ledger_events (settle_mediated T gate.1 o.ledger gate.2 acquisition.charge) : List (Event D R I)).filterMap
        Event.call = [call]
      rw [ledger_uncalled]

theorem dispatch_called (adapter : Adapter) (mediated : Option Purchase.ProviderCapability)
    (gate : Option (AllowanceContext × GateDecision)) : Called (dispatch T o adapter mediated gate : SearchPassage D R I).events := by
  unfold dispatch
  split
  · exact Or.inr (Or.inl (account_called _ _ _))
  · exact Or.inr (Or.inr (account_called _ _ _))
  · exact Or.inl rfl

theorem gated_called (adapter : Adapter) : Called (gated_search T o adapter : SearchPassage D R I).events := by
  unfold gated_search
  split
  · split
    · have apart (decision : GateDecision) (events : List (Event D R I)) (called : Called events) :
          Called ((decision.events.map .ledger : List (Event D R I)) ++ events) := by
        unfold Called at called ⊢
        rwa [List.filterMap_append, gate_uncalled, List.nil_append]
      refine apart _ _ ?_
      split
      · exact Or.inl rfl
      · exact dispatch_called adapter _ _
    · exact Or.inl rfl
  · exact dispatch_called adapter _ _

theorem governed_called : Called (governed_search T o : SearchPassage D R I).events :=
  @governed_cases _ _ _ T o (fun passage => Called passage.events) (fun _ => Or.inl rfl) fun adapter _ => gated_called adapter

theorem gated_unblocked {adapter : Adapter} {context : AllowanceContext} (strict : o.mode = .strict)
    (mediates : adapter.mediated = some .search) (allowance : o.allowance = some context) {call : Purchase.Call}
    (supplied : .supplied call ∈ (gated_search T o adapter : SearchPassage D R I).events) :
    o.home = true ∧ ¬Blocked (adapter.published_price .search)
      (pre_dispatch T context o.ledger .strict (adapter.published_price .search)) := by
  unfold gated_search at supplied
  rw [mediates, allowance] at supplied
  simp only at supplied
  split at supplied
  · rename_i home
    refine ⟨home, fun blocked => ?_⟩
    obtain ⟨ruling, is, refusal⟩ := blocked_refuses (o.declared context allowance) blocked
    rw [strict, is] at supplied
    simp only [Option.any_some, refusal, if_true] at supplied
    rcases List.mem_append.mp supplied with gate | later
    · obtain ⟨_, _, same⟩ := List.mem_map.mp gate
      cases same
    · cases later
  · cases supplied

def Event.settles : Event D R I → Bool
  | .ledger (.settled _ _ _) => true
  | _ => false

/-- A charge is settled once, against what was reserved; where the ledger refuses it, the gap names both. -/
def Committed (events : List (Event D R I)) (money : Money) : Prop :=
  ∃ fault,
    events.filter Event.settles = [.ledger (.settled (events.filterMap Event.reserves).head? (some money) fault)] ∧
      (fault.isSome = true → .allowance_gap (events.filterMap Event.reserves).head? (some money) ∈ events)

theorem settle_charged {context : AllowanceContext} {ledger : Ledger} {decision : GateDecision}
    {charge : Admission.AcquisitionCharge}
    {money : Money} (declared : context.declared = true) (charged : charge.money = some money) :
    settle_mediated T context ledger decision charge = [.settled decision.reservation (some money) (Purchase.fault ledger.settle)] := by
  unfold settle_mediated Purchase.settle_success
  cases decision.reservation with
  | some reservation => rw [charged]
  | none =>
    simp only [charged, declared, Option.isSome_some, Bool.and_self, if_true]

theorem committed_gate {context : AllowanceContext} {decision : GateDecision} {charge : Admission.AcquisitionCharge}
    {money : Money}
    (declared : context.declared = true) (charged : charge.money = some money) (call : Purchase.Call) :
    Committed ((decision.events.map .ledger : List (Event D R I)) ++
      ([.supplied call] ++ ledger_events (settle_mediated T context o.ledger decision charge))) money := by
  rw [settle_charged declared charged]
  refine ⟨Purchase.fault o.ledger.settle, ?_, ?_⟩
  · cases decision with
    | mk reservation ruling fault =>
      cases reservation <;> cases fault <;> cases Purchase.fault o.ledger.settle <;> rfl
  · intro refused
    obtain ⟨fault, is⟩ := Option.isSome_iff_exists.mp refused
    rw [is, List.filterMap_append, gate_reserves]
    refine List.mem_append_right _ ?_
    cases decision with
    | mk reservation ruling fault =>
      cases reservation with
      | none => exact List.mem_cons_of_mem _ (List.mem_cons_of_mem _ List.mem_cons_self)
      | some reservation => exact List.mem_cons_of_mem _ (List.mem_cons_of_mem _ List.mem_cons_self)

theorem gated_committed {adapter : Adapter} {context : AllowanceContext} (allowance : o.allowance = some context)
    {delivery : Delivery} (returned : (gated_search T o adapter : SearchPassage D R I).exit = .ok delivery) {money : Money}
    (charged : delivery.acquisition.charge.money = some money) :
    Committed (gated_search T o adapter : SearchPassage D R I).events money := by
  unfold gated_search at returned ⊢
  rw [allowance] at returned ⊢
  cases mediates : adapter.mediated with
  | none =>
    rw [mediates] at returned
    cases returned
  | some capability =>
    rw [mediates] at returned
    cases capability with
    | search =>
      simp only at returned ⊢
      split at returned
      · rename_i home
        rw [if_pos home]
        change (ite _ _ _ : SearchPassage D R I).exit = _ at returned
        split at returned
        · cases returned
        · rename_i passes
          rw [if_neg passes]
          simp only [dispatch, account_search] at returned ⊢
          cases answer : adapter.search with
          | error error =>
            rw [answer] at returned
            cases returned
          | ok acquisition =>
            rw [answer] at returned
            obtain rfl := Except.ok.inj returned
            exact committed_gate (o.declared context allowance) charged .search
      · cases returned
    | query =>
      simp only [dispatch, account_search] at returned
      cases answer : adapter.query with
      | error error =>
        rw [answer] at returned
        cases returned
      | ok acquisition =>
        rw [answer] at returned
        obtain rfl := Except.ok.inj returned
        change acquisition.charge.money = some money at charged
        rw [adapter.free acquisition answer] at charged
        cases charged
    | _ => cases returned

end

structure FetchAccounts (T : Admission.Texts) (server : Server) (o : Occasion D R I S) : Prop where
  resolved : Resolved (fetch_unquoted T server o).events
  strict : ∀ price context at_, server.mode = .strict → o.quoted_price = some price → server.allowance = some context →
    .requested at_ ∈ (fetch_unquoted T server o).events →
      server.home = true ∧ ¬Blocked (some price) (pre_dispatch T context o.ledger .strict (some price))

structure SearchAccounts (D R I : Type) (T : Admission.Texts) (o : SearchOccasion) : Prop where
  resolved : Resolved (governed_search T o : SearchPassage D R I).events
  strict : ∀ adapter context call, o.mode = .strict → o.supplier = .ok adapter → adapter.mediated = some .search →
    o.allowance = some context → .supplied call ∈ (governed_search T o : SearchPassage D R I).events →
      o.home = true ∧ ¬Blocked (adapter.published_price .search)
        (pre_dispatch T context o.ledger .strict (adapter.published_price .search))
  committed : ∀ delivery money, (governed_search T o : SearchPassage D R I).exit = .ok delivery →
    delivery.acquisition.charge.money = some money → o.allowance.isSome = true →
      Committed (governed_search T o : SearchPassage D R I).events money
  called : Called (governed_search T o : SearchPassage D R I).events

theorem search_accounts (T : Admission.Texts) (o : SearchOccasion) : SearchAccounts D R I T o where
  resolved := governed_resolved
  strict adapter context call strict is mediates allowance := by
    refine @governed_cases D R I T o (fun passage => .supplied call ∈ passage.events → _) (fun _ member => nomatch member) ?_
    intro other same supplied
    obtain rfl := Except.ok.inj (is.symm.trans same)
    exact gated_unblocked strict mediates allowance supplied
  committed delivery money returned charged allowance := by
    obtain ⟨context, allowance⟩ := Option.isSome_iff_exists.mp allowance
    revert returned
    refine @governed_cases D R I T o (fun passage => passage.exit = .ok delivery → Committed passage.events money) ?_ ?_
    · exact fun _ returned => nomatch returned
    · exact fun adapter _ returned => gated_committed allowance returned charged
  called := governed_called

/-- Whatever a fetch or a search meets, what it reserved is settled or released once, nothing is asked for past a strict gate that
could not reserve or refused, and what a search is charged is committed once or stated as a gap. -/
theorem reservations_resolved (T : Admission.Texts) (server : Server) (o : Occasion D R I S) (search : SearchOccasion) :
    FetchAccounts T server o ∧ SearchAccounts D R I T search :=
  ⟨⟨fetch_resolved, fun _ _ _ strict priced allowance asked => fetch_unblocked strict priced allowance asked⟩,
    search_accounts T search⟩

end CommonMeasure.Mediation
