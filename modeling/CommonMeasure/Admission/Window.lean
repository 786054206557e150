import CommonMeasure.Admission.Pipeline

namespace CommonMeasure.Admission

open Optimise (Casing KeptSource DroppedSource State Source approximate_tokens)

variable {T : Texts} {S : Screens} {casing : Casing} {digest : List Char → String} {plan : Plan}

inductive Fate where
  | unusable
  | dropped (dropped : DroppedSource)
  | kept (kept : KeptSource)

def Fate.kept? : Fate → Option KeptSource
  | .kept source => some source
  | .unusable | .dropped _ => none

def Fate.dropped? : Fate → Option DroppedSource
  | .dropped source => some source
  | .unusable | .kept _ => none

def fates (T : Texts) (S : Screens) (casing : Casing) (digest : List Char → String) (plan : Plan) :
    State → List ContextEnvelope → List Fate
  | _, [] => []
  | state, envelope :: rest =>
    match plan.offered T S envelope with
    | none => .unusable :: fates T S casing digest plan state rest
    | some text =>
      let source := Plan.sourceOf envelope text
      let others := fates T S casing digest plan (nextOf casing digest state source) rest
      match outcomeOf casing digest state source with
      | .inl dropped => .dropped dropped :: others
      | .inr kept => .kept kept :: others

def windowOf (T : Texts) (S : Screens) (plan : Plan) : Nat → List (ContextEnvelope × Fate) → Window
  | _, [] => ⟨[], [], 0⟩
  | admitted_tokens, (envelope, .unusable) :: rest =>
    (windowOf T S plan admitted_tokens rest).push (plan.unusableRecord T S envelope) none 0
  | admitted_tokens, (envelope, .dropped duplicate) :: rest =>
    (windowOf T S plan admitted_tokens rest).push
      (recordOf envelope (original_tokens envelope) false (deduplicated_reason duplicate.duplicate_of)) none 0
  | admitted_tokens, (envelope, .kept source) :: rest =>
    let outcome := fitOne plan.budget admitted_tokens source.envelope.source_url source.tokens_out
    (windowOf T S plan (if outcome.admitted then admitted_tokens + source.tokens_out else admitted_tokens) rest).push
      (plan.keptRecord T S envelope source outcome)
      (if outcome.admitted && !emptied source then some (partOf envelope source) else none) outcome.tokens

theorem nextOf_outcome (state : State) (source : Source) :
    (∃ dropped, outcomeOf casing digest state source = .inl dropped ∧
      (nextOf casing digest state source).kept = state.kept ∧
      (nextOf casing digest state source).dropped = state.dropped ++ [dropped]) ∨
    ∃ kept, outcomeOf casing digest state source = .inr kept ∧
      (nextOf casing digest state source).kept = state.kept ++ [kept] ∧
      (nextOf casing digest state source).dropped = state.dropped := by
  unfold outcomeOf nextOf State.take
  dsimp only
  cases state.seen_sources.find? fun seen => seen.1 = Optimise.canonical casing source.text with
  | some seen => exact Or.inl ⟨_, rfl, rfl, rfl⟩
  | none => exact Or.inr ⟨_, rfl, rfl, rfl⟩

theorem place_invoke (state : State) (sources : List (Nat × Source)) :
    state.kept ++ (place casing digest state sources).1.map Prod.snd =
        ((sources.map Prod.snd).foldl (nextOf casing digest) state).kept ∧
      state.dropped ++ (place casing digest state sources).2.map Prod.snd =
        ((sources.map Prod.snd).foldl (nextOf casing digest) state).dropped := by
  induction sources generalizing state with
  | nil => exact ⟨List.append_nil _, List.append_nil _⟩
  | cons first rest ih =>
    obtain ⟨index, source⟩ := first
    obtain ⟨keeps, drops⟩ := ih (nextOf casing digest state source)
    rw [List.map_cons, List.foldl_cons, ← keeps, ← drops, place]
    obtain ⟨dropped, is, kept_, dropped_⟩ | ⟨kept, is, kept_, dropped_⟩ := nextOf_outcome state source
    · rw [is, kept_, dropped_]
      exact ⟨rfl, by simp⟩
    · rw [is, kept_, dropped_]
      exact ⟨by simp, rfl⟩

section

variable {envelope : ContextEnvelope} {rest : List ContextEnvelope} {state : State} {index : Nat}

theorem fates_none (offered : plan.offered T S envelope = none) :
    fates T S casing digest plan state (envelope :: rest) = .unusable :: fates T S casing digest plan state rest := by
  rw [fates, offered]

theorem optimisable_none (offered : plan.offered T S envelope = none) :
    plan.optimisable T S ((envelope :: rest).zipIdx index) = plan.optimisable T S (rest.zipIdx (index + 1)) := by
  rw [List.zipIdx_cons, Plan.optimisable, List.filterMap_cons, offered]
  rfl

theorem fates_some {text : List Char} (offered : plan.offered T S envelope = some text) :
    fates T S casing digest plan state (envelope :: rest) =
      (match outcomeOf casing digest state (Plan.sourceOf envelope text) with
        | .inl dropped => .dropped dropped
        | .inr kept => .kept kept) ::
      fates T S casing digest plan (nextOf casing digest state (Plan.sourceOf envelope text)) rest := by
  rw [fates, offered]
  dsimp only
  cases outcomeOf casing digest state (Plan.sourceOf envelope text) <;> rfl

theorem optimisable_some {text : List Char} (offered : plan.offered T S envelope = some text) :
    plan.optimisable T S ((envelope :: rest).zipIdx index) =
      (index, Plan.sourceOf envelope text) :: plan.optimisable T S (rest.zipIdx (index + 1)) := by
  rw [List.zipIdx_cons, Plan.optimisable, List.filterMap_cons, offered]
  rfl

end

theorem fates_place (state : State) (envelopes : List ContextEnvelope) (index : Nat) :
    (fates T S casing digest plan state envelopes).filterMap Fate.kept? =
        (place casing digest state (plan.optimisable T S (envelopes.zipIdx index))).1.map Prod.snd ∧
      (fates T S casing digest plan state envelopes).filterMap Fate.dropped? =
        (place casing digest state (plan.optimisable T S (envelopes.zipIdx index))).2.map Prod.snd := by
  induction envelopes generalizing state index with
  | nil => exact ⟨rfl, rfl⟩
  | cons envelope rest ih =>
    cases offered : plan.offered T S envelope with
    | none =>
      rw [fates_none offered, optimisable_none offered]
      exact ih state (index + 1)
    | some text =>
      rw [fates_some offered, optimisable_some offered, place]
      obtain ⟨keeps, drops⟩ := ih (nextOf casing digest state (Plan.sourceOf envelope text)) (index + 1)
      cases outcomeOf casing digest state (Plan.sourceOf envelope text) with
      | inl dropped => exact ⟨keeps, congrArg (dropped :: ·) drops⟩
      | inr kept => exact ⟨congrArg (kept :: ·) keeps, drops⟩

theorem usable_text {envelope : ContextEnvelope} (usable : plan.usable T S envelope = true) :
    ∃ text, envelope.text = some text := by
  cases textless : envelope.text with
  | some text => exact ⟨text, rfl⟩
  | none =>
    exfalso
    have suite : ∀ job, (source_admission_from T job envelope (some plan.provider)).is_refusal = true :=
      fun job => source_admission_textless T (some plan.provider) textless
    have refused : (plan.admission T envelope).is_refusal = true :=
      check_policy_alone (source_admission_disciplined T envelope (some plan.provider)) (by
        have here := suite { plan.suite with policy_mode := enforcement_mode none plan.suite }
        unfold check_policy
        dsimp only
        split
        · rename_i allowed
          rw [allowed] at here
          cases here
        · exact here)
    simp [Plan.usable, refused] at usable

theorem offered_none {envelope : ContextEnvelope} :
    plan.offered T S envelope = none ↔ plan.usable T S envelope = false := by
  unfold Plan.offered
  split
  · rename_i usable
    obtain ⟨text, is⟩ := usable_text usable
    simp [is, usable]
  · rename_i unusable
    simpa using unusable

theorem place_below {bound : Nat} {sources : List (Nat × Source)} (below : ∀ entry ∈ sources, bound ≤ entry.1) (state : State) :
    ∀ entry ∈ (place casing digest state sources).2, bound ≤ entry.1 := by
  induction sources generalizing state with
  | nil => exact fun _ listed => nomatch listed
  | cons first rest ih =>
    obtain ⟨index, source⟩ := first
    obtain ⟨here, later⟩ := List.forall_mem_cons.mp below
    unfold place
    dsimp only
    split
    · exact List.forall_mem_cons.mpr ⟨here, ih later _⟩
    · exact ih later _

theorem optimisable_below (envelopes : List ContextEnvelope) (index : Nat) :
    ∀ entry ∈ plan.optimisable T S (envelopes.zipIdx index), index ≤ entry.1 := by
  intro entry listed
  obtain ⟨⟨envelope, place⟩, there, is⟩ := List.mem_filterMap.mp listed
  obtain ⟨text, _, rfl⟩ := Option.map_eq_some_iff.mp is
  exact (List.mem_zipIdx there).1

theorem next_if_later (cursor : Cursor) {index : Nat} (later : ∀ entry ∈ cursor.dropped, index + 1 ≤ entry.1) :
    cursor.next_if index = (none, cursor) := by
  unfold Cursor.next_if
  split
  · rename_i place dropped rest is
    have after := later (place, dropped) (by rw [is]; exact List.mem_cons_self)
    rw [if_neg (by simp only at after; omega)]
  · rfl

theorem next_if_here {kept : List (Nat × KeptSource)} {fitted : List BudgetOutcome} {index : Nat}
    {dropped : DroppedSource} {rest : List (Nat × DroppedSource)} :
    Cursor.next_if ⟨kept, fitted, (index, dropped) :: rest⟩ index = (some dropped, ⟨kept, fitted, rest⟩) :=
  if_pos rfl

theorem walk_windowOf (envelopes : List ContextEnvelope) (state : State) (index admitted_tokens : Nat) :
    plan.walk T S (envelopes.zipIdx index)
        (plan.cursorOf (place casing digest state (plan.optimisable T S (envelopes.zipIdx index))) admitted_tokens) =
      some (windowOf T S plan admitted_tokens (envelopes.zip (fates T S casing digest plan state envelopes))) := by
  induction envelopes generalizing state index admitted_tokens with
  | nil => rfl
  | cons envelope rest ih =>
    have later : ∀ state, ∀ entry ∈ (place casing digest state (plan.optimisable T S (rest.zipIdx (index + 1)))).2,
        index + 1 ≤ entry.1 := place_below (optimisable_below rest (index + 1))
    cases offered : plan.offered T S envelope with
    | none =>
      have unusable := offered_none.mp offered
      rw [fates_none offered, optimisable_none offered, List.zipIdx_cons, Plan.walk,
        next_if_later (plan.cursorOf _ _) (later state)]
      dsimp only
      rw [unusable, Bool.not_false, if_pos rfl, ih]
      rfl
    | some text =>
      have usable : plan.usable T S envelope = true := by
        by_contra unusable
        rw [offered_none.mpr (Bool.eq_false_iff.mpr unusable)] at offered
        cases offered
      rw [fates_some offered, optimisable_some offered, List.zipIdx_cons, place]
      have others := ih (nextOf casing digest state (Plan.sourceOf envelope text)) (index + 1)
      have after := later (nextOf casing digest state (Plan.sourceOf envelope text))
      generalize place casing digest (nextOf casing digest state (Plan.sourceOf envelope text))
        (plan.optimisable T S (rest.zipIdx (index + 1))) = placed at others after
      cases outcomeOf casing digest state (Plan.sourceOf envelope text) with
      | inl dropped =>
        rw [Plan.walk, Plan.cursorOf, next_if_here]
        dsimp only
        rw [usable, Bool.not_true, if_neg Bool.false_ne_true]
        exact congrArg (Option.map _) (others admitted_tokens)
      | inr kept =>
        rw [Plan.walk, next_if_later (plan.cursorOf ((index, kept) :: placed.1, placed.2) admitted_tokens) after]
        dsimp only
        rw [usable, Bool.not_true, if_neg Bool.false_ne_true]
        exact congrArg (Option.map _) (others _)

end CommonMeasure.Admission
