import CommonMeasure.Purchase.Escaped

namespace CommonMeasure.Purchase

open Admission

variable {T : Texts} {host_of : String → String} {setting : Setting} {world : World}

/-! ### Ways out -/

theorem after_after (before more : List Event) (passage : Passage) :
    (passage.after more).after before = passage.after (before ++ more) := by
  unfold Passage.after
  rw [List.append_assoc]

section

variable {before : List Event} {next : Passage}

theorem ruled_kept {stage : Stage} {ruling : Ruling} (quiet : ∀ event ∈ before, event.quiet = true) :
    Kept T host_of setting ((ruled stage ruling next).after before) ↔
      (ruling.is_refusal = false → Kept T host_of setting (next.after (before ++ [.ruled stage ruling]))) := by
  unfold ruled
  rw [after_after]
  cases ruling.is_refusal with
  | false => simp
  | true =>
    refine iff_of_true (kept_quiet ?_ _) (fun same => nomatch same)
    simpa [or_imp, forall_and, Event.quiet] using quiet

def Opens (decision : GateDecision) : Prop := ∀ ruling ∈ decision.ruling, ruling.is_refusal = false

def GateDecision.passed (decision : GateDecision) : List Event :=
  decision.events ++ decision.ruling.toList.map (.ruled .allowance)

theorem gated_kept {decision : GateDecision} (coherent : decision.Coherent (mode setting))
    (quiet : ∀ event ∈ before, event.quiet = true) :
    Kept T host_of setting ((gated decision next).after before) ↔
      (Opens decision → Kept T host_of setting (next.after (before ++ decision.passed))) := by
  obtain ⟨reservation, ruling, fault⟩ := decision
  unfold gated GateDecision.passed Opens
  rw [after_after]
  cases ruling with
  | none => simp
  | some ruling =>
    dsimp only
    unfold ruled
    rw [after_after, List.append_assoc]
    cases refused : ruling.is_refusal with
    | false => simp [refused]
    | true =>
      cases coherent.refused ruling rfl refused
      refine iff_of_true (kept_quiet ?_ _) fun opens => ?_
      · intro event listed
        simp only [GateDecision.events, List.mem_append, List.mem_map, Option.mem_toList,
          List.mem_singleton, List.not_mem_nil, or_false, Option.toList_none, List.map_nil, if_true] at listed
        obtain earlier | ⟨error, _, rfl⟩ | rfl := listed
        · exact quiet event earlier
        · rfl
        · rfl
      · rw [opens ruling rfl] at refused
        cases refused

theorem Standing.all_quiet (standing : Standing T host_of setting before none) : ∀ event ∈ before, event.quiet = true :=
  fun event listed => (standing.quiet event listed).resolve_right fun ⟨_, none_, _⟩ => nomatch none_

theorem Standing.ruled {stage : Stage} {ruling : Ruling} (standing : Standing T host_of setting before none)
    (allowed : ruling.is_refusal = false) : Standing T host_of setting (before ++ [.ruled stage ruling]) none where
  quiet event listed := by
    obtain earlier | here := List.mem_append.mp listed
    · exact standing.quiet event earlier
    · rw [List.mem_singleton.mp here]
      exact .inl rfl
  held _ none_ := nomatch none_
  allowed other ruling' listed := by
    obtain earlier | here := List.mem_append.mp listed
    · exact standing.allowed other ruling' earlier
    · cases List.mem_singleton.mp here
      exact allowed
  eligible := List.mem_append_left _ standing.eligible
  target ruling' target := List.mem_append_left _ (standing.target ruling' target)
  readable strict error listed := by
    obtain earlier | here := List.mem_append.mp listed
    · exact standing.readable strict error earlier
    · cases List.mem_singleton.mp here

theorem Standing.sealed (standing : Standing T host_of setting before none) :
    Standing T host_of setting (before ++ [.sealed .inspect, .sealed .preview]) none where
  quiet event listed := by
    obtain earlier | here := List.mem_append.mp listed
    · exact standing.quiet event earlier
    · simp only [List.mem_cons, List.not_mem_nil, or_false] at here
      obtain rfl | rfl := here <;> exact .inl rfl
  held _ none_ := nomatch none_
  allowed other ruling listed := standing.allowed other ruling (by simpa using listed)
  eligible := List.mem_append_left _ standing.eligible
  target ruling target := List.mem_append_left _ (standing.target ruling target)
  readable strict error listed := standing.readable strict error (by simpa using listed)

theorem Standing.passed {decision : GateDecision} (standing : Standing T host_of setting before none)
    (coherent : decision.Coherent (mode setting)) (opens : Opens decision) :
    Standing T host_of setting (before ++ decision.passed) decision.reservation where
  quiet event listed := by
    obtain earlier | here := List.mem_append.mp listed
    · exact .inl (standing.all_quiet event earlier)
    · simp only [GateDecision.passed, GateDecision.events, List.mem_append, List.mem_map, Option.mem_toList] at here
      obtain (⟨error, _, rfl⟩ | ⟨held, is, rfl⟩) | ⟨ruling, _, rfl⟩ := here
      · exact .inl rfl
      · exact .inr ⟨held, is, rfl⟩
      · exact .inl rfl
  held id is := by simp [GateDecision.passed, GateDecision.events, is]
  allowed stage ruling listed := by
    obtain earlier | here := List.mem_append.mp listed
    · exact standing.allowed stage ruling earlier
    · simp only [GateDecision.passed, GateDecision.events, List.mem_append, List.mem_map, Option.mem_toList] at here
      obtain (⟨_, _, same⟩ | ⟨_, _, same⟩) | ⟨other, is, same⟩ := here
      · cases same
      · cases same
      · cases same
        exact opens ruling is
  eligible := List.mem_append_left _ standing.eligible
  target ruling target := List.mem_append_left _ (standing.target ruling target)
  readable strict error listed := by
    obtain earlier | here := List.mem_append.mp listed
    · exact standing.readable strict error earlier
    · simp only [GateDecision.passed, GateDecision.events, List.mem_append, List.mem_map, Option.mem_toList] at here
      obtain (⟨other, is, same⟩ | ⟨_, _, same⟩) | ⟨_, _, same⟩ := here
      · obtain ⟨ruling, found, refused⟩ := coherent.faulted other is strict
        rw [opens ruling found] at refused
        cases refused
      · cases same
      · cases same

end

theorem quote_gate_coherent (quote : SupplyQuote) : (quote_gate T setting world quote).Coherent (mode setting) := by
  unfold quote_gate
  split
  · exact allowance_gate_coherent _ _
  · exact coherent_open

theorem quote_gate_backed (quote : SupplyQuote) : Backed setting (quote_gate T setting world quote).reservation := by
  intro held
  unfold quote_gate at held
  split at held
  · rename_i context is
    rw [is]
    rfl
  · cases held

theorem dispatch_gate_coherent (supplier : Supplier) :
    (dispatch_gate T setting world supplier).Coherent (mode setting) := by
  unfold dispatch_gate
  split
  · split
    · exact pre_dispatch_coherent _
    · exact coherent_open
  · exact coherent_open

theorem dispatch_gate_backed (supplier : Supplier) :
    Backed setting (dispatch_gate T setting world supplier).reservation := by
  intro held
  unfold dispatch_gate at held
  split at held
  · split at held
    · rename_i context is
      rw [is]
      rfl
    · cases held
  · cases held

theorem dispatch_gate_ungated {supplier : Supplier}
    (ungated : ¬(setting.capability = .search ∨ setting.capability = .fetch)) :
    (dispatch_gate T setting world supplier).reservation = none := by
  rw [dispatch_gate, if_neg ungated]

def QuoteLost (T : Texts) (setting : Setting) (world : World) (supplier : Supplier) : Prop :=
  ∃ quote, supplier.quote = .ok quote ∧ (∃ done, world.write .inspect = .ok done) ∧
    (∃ done, world.write .preview = .ok done) ∧ quote.workflow = "requires_confirm" ∧
    (purchase_ruling T setting quote).is_refusal = false ∧ Opens (quote_gate T setting world quote) ∧
    PurchaseLost setting world supplier (quote_gate T setting world quote).reservation

def Lost (T : Texts) (host_of : String → String) (setting : Setting) (world : World) : Prop :=
  (eligibility setting).is_refusal = false ∧ (∀ ruling ∈ target_ruling T host_of setting, ruling.is_refusal = false) ∧
    authorised setting = true ∧ ∃ supplier, world.supplier = .ok supplier ∧
      if .quote ∈ setting.capabilities then QuoteLost T setting world supplier
      else Opens (dispatch_gate T setting world supplier) ∧
        DispatchLost setting world supplier (dispatch_gate T setting world supplier).reservation

section

variable {before : List Event} {supplier : Supplier}

theorem quoted_purchase_kept (standing : Standing T host_of setting before none) :
    Kept T host_of setting ((quoted_purchase T setting world supplier).after before) ↔
      ¬QuoteLost T setting world supplier := by
  have out : ∀ more : List Event, (∀ event ∈ more, event.quiet = true) → ∀ exit,
      Kept T host_of setting (Passage.after before ⟨more, exit⟩) := by
    intro more quiet exit
    refine kept_quiet (fun event listed => ?_) exit
    exact (List.mem_append.mp listed).elim (standing.all_quiet event) (quiet event)
  unfold quoted_purchase
  cases quoted : supplier.quote with
  | error error =>
    refine iff_of_true (out [] (by simp) _) ?_
    rintro ⟨quote, same, _⟩
    rw [quoted] at same
    cases same
  | ok quote =>
    dsimp only
    cases inspected : world.write .inspect with
    | error error =>
      refine iff_of_true (out [] (by simp) _) ?_
      rintro ⟨_, _, ⟨_, same⟩, _⟩
      rw [inspected] at same
      cases same
    | ok done =>
      dsimp only
      cases previewed : world.write .preview with
      | error error =>
        refine iff_of_true (out [.sealed .inspect] (by simp [Event.quiet]) _) ?_
        rintro ⟨_, _, _, ⟨_, same⟩, _⟩
        rw [previewed] at same
        cases same
      | ok done' =>
        have lost : QuoteLost T setting world supplier ↔ quote.workflow = "requires_confirm" ∧
            (purchase_ruling T setting quote).is_refusal = false ∧ Opens (quote_gate T setting world quote) ∧
            PurchaseLost setting world supplier (quote_gate T setting world quote).reservation := by
          constructor
          · rintro ⟨other, same, _, _, rest⟩
            rw [quoted] at same
            cases same
            exact rest
          · exact fun rest => ⟨quote, quoted, ⟨done, inspected⟩, ⟨done', previewed⟩, rest⟩
        rw [lost]
        dsimp only
        rw [after_after]
        unfold decide_purchase
        by_cases workflow : quote.workflow = "requires_confirm"
        · rw [if_neg (not_not.mpr workflow), ruled_kept standing.sealed.all_quiet]
          by_cases allowed : (purchase_ruling T setting quote).is_refusal = false
          · have here : Standing T host_of setting (before ++ [.sealed .inspect, .sealed .preview] ++
                [.ruled .purchase (purchase_ruling T setting quote)]) none := standing.sealed.ruled allowed
            rw [gated_kept (quote_gate_coherent quote) here.all_quiet]
            by_cases opens : Opens (quote_gate T setting world quote)
            · rw [buy_kept (here.passed (quote_gate_coherent quote) opens) (quote_gate_backed quote)
                ⟨by simp, by simp, quote, by simp⟩]
              simp [workflow, allowed, opens]
            · simp [opens]
          · simp [allowed]
        · rw [if_pos workflow]
          refine iff_of_true ?_ fun lost => workflow lost.1
          have ends := out [.sealed .inspect, .sealed .preview] (by simp [Event.quiet]) (.planned [workflow_gap quote])
          simpa [Passage.after] using ends

theorem acquisition_kept (standing : Standing T host_of setting before none) :
    Kept T host_of setting ((acquisition T setting world).after before) ↔
      ¬(authorised setting = true ∧ ∃ supplier, world.supplier = .ok supplier ∧
        if .quote ∈ setting.capabilities then QuoteLost T setting world supplier
        else Opens (dispatch_gate T setting world supplier) ∧
          DispatchLost setting world supplier (dispatch_gate T setting world supplier).reservation) := by
  have out : ∀ exit, Kept T host_of setting (Passage.after before ⟨[], exit⟩) := fun exit =>
    kept_quiet (by simpa using standing.all_quiet) exit
  unfold acquisition
  cases live : authorised setting with
  | false => exact iff_of_true (out _) (fun lost => nomatch lost.1)
  | true =>
    rw [Bool.not_true, if_neg Bool.false_ne_true]
    cases resolved : world.supplier with
    | error error =>
      refine iff_of_true (out _) ?_
      rintro ⟨_, supplier, same, _⟩
      cases same
    | ok supplier =>
      dsimp only
      have only : ∀ P : Supplier → Prop, (true = true ∧ ∃ other, Except.ok supplier = (.ok other : Except String Supplier) ∧
          P other) ↔ P supplier :=
        fun P => ⟨fun ⟨_, _, same, holds⟩ => by cases same; exact holds, fun holds => ⟨rfl, supplier, rfl, holds⟩⟩
      rw [only fun supplier => if .quote ∈ setting.capabilities then QuoteLost T setting world supplier
        else Opens (dispatch_gate T setting world supplier) ∧
          DispatchLost setting world supplier (dispatch_gate T setting world supplier).reservation]
      split
      · exact quoted_purchase_kept standing
      · rw [gated_kept (dispatch_gate_coherent supplier) standing.all_quiet]
        by_cases opens : Opens (dispatch_gate T setting world supplier)
        · rw [acquire_kept (standing.passed (dispatch_gate_coherent supplier) opens) (dispatch_gate_backed supplier)
            dispatch_gate_ungated]
          simp [opens]
        · simp [opens]

end

/-- A plan spends once, when it may, and accounts for it on every way out, but where it is lost. -/
theorem plan_kept_iff (T : Texts) (host_of : String → String) (setting : Setting) (world : World) :
    Kept T host_of setting (provider_plan T host_of setting world) ↔ ¬Lost T host_of setting world := by
  have start : provider_plan T host_of setting world = (provider_plan T host_of setting world).after [] := rfl
  rw [start, provider_plan, ruled_kept (by simp)]
  unfold Lost
  by_cases eligible : (eligibility setting).is_refusal = false
  · have standing : target_ruling T host_of setting = none →
        Standing T host_of setting [.ruled .eligibility (eligibility setting)] none := fun untargeted =>
      ⟨by simp [Event.quiet], fun _ none_ => (nomatch none_), by simp [eligible], by simp, by simp [untargeted], by simp⟩
    cases target : target_ruling T host_of setting with
    | none =>
      dsimp only
      rw [List.nil_append, acquisition_kept (standing target)]
      simp [eligible]
    | some ruling =>
      dsimp only
      rw [List.nil_append, ruled_kept (by simp [Event.quiet])]
      by_cases allowed : ruling.is_refusal = false
      · have targeted : Standing T host_of setting
            ([.ruled .eligibility (eligibility setting)] ++ [.ruled .target ruling]) none := by
          refine ⟨by simp [Event.quiet], fun _ none_ => (nomatch none_), fun stage other listed => ?_, by simp,
            by simp [target], by simp⟩
          simp only [List.cons_append, List.nil_append, List.mem_cons, List.not_mem_nil, or_false,
            Event.ruled.injEq] at listed
          obtain ⟨_, rfl⟩ | ⟨_, rfl⟩ := listed
          · exact eligible
          · exact allowed
        rw [acquisition_kept targeted]
        simp [eligible, allowed]
      · simp [allowed]
  · simp [eligible]

def texts : Texts := ⟨id, id, fun money => toString money.micros⟩

def searching : Setting where
  policy := none
  suite := ⟨.strict, []⟩
  provider := "exa"
  capabilities := [.search]
  capability := .search
  fetch_target := none
  limit := 4
  allow_external_acquisition := true
  replay := false
  allowance := some ⟨"os-user:1000", true⟩
  planned := rfl

def priced : Supplier where
  published_price _ := some ⟨5000, "USD"⟩
  maximum_search_results := none
  quote := .error "provider exa does not implement Quote, and its adapter declares only what it implements"
  answer call := if call.spends then .ok ⟨⟨some ⟨5000, "USD"⟩, none⟩, 4⟩ else .error "unavailable"
  free call acquisition unspent answered := by
    rw [if_neg (by rw [unspent]; exact Bool.false_ne_true)] at answered
    cases answered

def full : World where
  supplier := .ok priced
  write
    | .response => .error "No space left on device (os error 28)"
    | .inspect | .preview => .ok ()
  ledger := ⟨.ok ⟨true, ""⟩, .ok "reservation", .ok [], .ok (), .ok ()⟩
  later := []

/-- The search was paid for, and its reservation is neither settled nor released. -/
theorem search_escapes : ¬Kept texts id searching (provider_plan texts id searching full) := by
  intro kept
  obtain ⟨event, one, _⟩ := kept.resolved "reservation" (by decide)
  have unresolved : (provider_plan texts id searching full).events.filter (Event.resolves "reservation") = [] := by
    decide
  rw [unresolved] at one
  cases one

end CommonMeasure.Purchase
