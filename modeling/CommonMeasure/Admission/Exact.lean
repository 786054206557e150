import CommonMeasure.Admission.Window

/-!
# What a window holds

Every part is a source that both declarations, the screen and the cost let through, that the optimiser kept with some
text, and that fits whole in what the parts before it left.
-/

namespace CommonMeasure.Admission

open Optimise (Casing KeptSource DroppedSource State Source approximate_tokens)

variable {T : Texts} {S : Screens} {casing : Casing} {digest : List Char → String} {plan : Plan}

/-! ### One record -/

def spent (records : List SourceRecord) : Nat := ((records.filter SourceRecord.admitted).map SourceRecord.tokens).sum

theorem spent_cons (record : SourceRecord) (records : List SourceRecord) :
    spent (record :: records) = (if record.admitted then record.tokens else 0) + spent records := by
  unfold spent
  cases admitted : record.admitted
  · rw [List.filter_cons_of_neg (by simp [admitted])]
    simp
  · rw [List.filter_cons_of_pos admitted]
    simp

def Honest (digest : List Char → String) (source : KeptSource) : Prop :=
  source.output_hash = digest source.text ∧ source.tokens_out = approximate_tokens source.text

theorem emptied_tokens {source : KeptSource} (gone : emptied source = true) : approximate_tokens source.text = 0 := by
  have nothing : trim source.text = [] := List.isEmpty_iff.mp gone
  obtain ⟨lead, before, parts⟩ := trimStart_parts source.text
  obtain ⟨tail, after, rest⟩ := trim_parts source.text
  rw [nothing, List.nil_append] at rest
  have blank : Blank source.text := by
    rw [parts, rest]
    exact fun c listed => (List.mem_append.mp listed).elim (before c) (after c)
  rw [approximate_tokens, words, wordsAt_blank blank]
  rfl

theorem fitOne_fits {budget : Option Nat} {admitted_tokens tokens : Nat} {reference : String}
    (enough : fits budget (admitted_tokens + tokens) = true) :
    fitOne budget admitted_tokens reference tokens = ⟨tokens, true, none⟩ := if_pos enough

theorem fitOne_over {budget : Option Nat} {admitted_tokens tokens : Nat} (reference : String)
    (exceeds : fits budget (admitted_tokens + tokens) = false) :
    ∃ gap, fitOne budget admitted_tokens reference tokens = ⟨tokens, false, some gap⟩ :=
  ⟨_, if_neg (by rw [exceeds]; exact Bool.false_ne_true)⟩

section

variable {envelope : ContextEnvelope} {source : KeptSource} {tokens : Nat}

theorem keptRecord_url {outcome : BudgetOutcome} : (plan.keptRecord T S envelope source outcome).url = envelope.source_url := by
  unfold Plan.keptRecord
  dsimp only
  split
  · split <;> rfl
  · split <;> rfl

theorem keptRecord_over {gap : String} :
    (plan.keptRecord T S envelope source ⟨tokens, false, some gap⟩).admitted = false := by
  unfold Plan.keptRecord
  dsimp only
  split
  · split <;> rfl
  · rfl

theorem keptRecord_emptied {outcome : BudgetOutcome} (gone : emptied source = true) :
    (plan.keptRecord T S envelope source outcome).admitted = false := by
  unfold Plan.keptRecord
  dsimp only
  rw [if_pos gone]
  split <;> rfl

theorem keptRecord_admitted (left : emptied source = false) :
    (plan.keptRecord T S envelope source ⟨tokens, true, none⟩).admitted = true ∧
      (plan.keptRecord T S envelope source ⟨tokens, true, none⟩).tokens = tokens := by
  unfold Plan.keptRecord
  dsimp only
  rw [if_neg (by rw [left]; exact Bool.false_ne_true)]
  exact ⟨rfl, rfl⟩

end

structure Recorded (digest : List Char → String) (plan : Plan) (admitted_tokens : Nat) (item : ContextEnvelope × Fate)
    (record : SourceRecord) (part : Option ContextPart) : Prop where
  url : record.url = item.1.source_url
  part_of : part = if record.admitted then item.2.kept?.map (partOf item.1) else none
  admitted : record.admitted = true ↔ ∃ source, item.2 = .kept source ∧ emptied source = false ∧
    fits plan.budget (admitted_tokens + approximate_tokens source.text) = true
  tokens : ∀ handed ∈ part, record.tokens = approximate_tokens handed.text ∧ handed.content_hash = digest handed.text

theorem windowOf_cons (T : Texts) (S : Screens) (plan : Plan) (admitted_tokens : Nat) (item : ContextEnvelope × Fate)
    (rest : List (ContextEnvelope × Fate))
    (honest : ∀ source, item.2 = .kept source → Honest digest source) :
    ∃ record part, Recorded digest plan admitted_tokens item record part ∧
      windowOf T S plan admitted_tokens (item :: rest) =
        (windowOf T S plan (admitted_tokens + spent [record]) rest).push record part record.tokens := by
  obtain ⟨envelope, fate⟩ := item
  cases fate with
  | unusable =>
    exact ⟨plan.unusableRecord T S envelope, none, ⟨rfl, rfl, iff_of_false Bool.false_ne_true (by simp), fun _ held =>
      nomatch held⟩, rfl⟩
  | dropped duplicate =>
    exact ⟨recordOf envelope (original_tokens envelope) false (deduplicated_reason duplicate.duplicate_of), none,
      ⟨rfl, rfl, iff_of_false Bool.false_ne_true (by simp), fun _ held => nomatch held⟩, rfl⟩
  | kept source =>
    obtain ⟨hash, counted⟩ := honest source rfl
    -- Left out, the record stands for nothing: no part, and no token spent.
    have out : ∀ outcome : BudgetOutcome, (plan.keptRecord T S envelope source outcome).admitted = false →
        (¬ ∃ other, Fate.kept source = .kept other ∧ emptied other = false ∧
          fits plan.budget (admitted_tokens + approximate_tokens other.text) = true) →
        Recorded digest plan admitted_tokens (envelope, .kept source) (plan.keptRecord T S envelope source outcome) none ∧
          spent [plan.keptRecord T S envelope source outcome] = 0 := by
      intro outcome refused never
      refine ⟨⟨keptRecord_url, ?_, iff_of_false ?_ never, fun _ held => nomatch held⟩, ?_⟩
      · rw [refused]
        rfl
      · rw [refused]
        exact Bool.false_ne_true
      · rw [spent_cons, refused]
        rfl
    rw [windowOf]
    cases enough : fits plan.budget (admitted_tokens + source.tokens_out) with
    | false =>
      obtain ⟨gap, is⟩ := fitOne_over source.envelope.source_url enough
      obtain ⟨recorded, nothing⟩ := out ⟨source.tokens_out, false, some gap⟩ keptRecord_over (by
        rintro ⟨_, ⟨⟩, _, room⟩
        rw [← counted, enough] at room
        cases room)
      refine ⟨_, none, recorded, ?_⟩
      rw [is, nothing]
      rfl
    | true =>
      rw [fitOne_fits enough]
      cases gone : emptied source with
      | true =>
        obtain ⟨recorded, nothing⟩ := out ⟨source.tokens_out, true, none⟩ (keptRecord_emptied gone) (by
          rintro ⟨_, ⟨⟩, left, _⟩
          rw [gone] at left
          cases left)
        refine ⟨_, none, recorded, ?_⟩
        rw [nothing, counted, emptied_tokens gone]
        rfl
      | false =>
        have record : (plan.keptRecord T S envelope source ⟨source.tokens_out, true, none⟩).admitted = true ∧
            (plan.keptRecord T S envelope source ⟨source.tokens_out, true, none⟩).tokens = source.tokens_out :=
          keptRecord_admitted gone
        obtain ⟨admitted, tokens⟩ := record
        refine ⟨plan.keptRecord T S envelope source ⟨source.tokens_out, true, none⟩, some (partOf envelope source),
          ⟨keptRecord_url, ?_, iff_of_true admitted ⟨source, rfl, gone, counted ▸ enough⟩, ?_⟩, ?_⟩
        · rw [admitted]
          rfl
        · rintro _ ⟨⟩
          exact ⟨tokens.trans counted, hash⟩
        · rw [spent_cons, admitted, tokens]
          rfl

section

variable {items : List (ContextEnvelope × Fate)} {admitted_tokens : Nat}

theorem windowOf_urls (honest : ∀ item ∈ items, ∀ source, item.2 = .kept source → Honest digest source) :
    (windowOf T S plan admitted_tokens items).sources.map SourceRecord.url = items.map fun item => item.1.source_url := by
  induction items generalizing admitted_tokens with
  | nil => rfl
  | cons item rest ih =>
    obtain ⟨here, later⟩ := List.forall_mem_cons.mp honest
    obtain ⟨record, part, recorded, is⟩ := windowOf_cons T S plan admitted_tokens item rest here
    rw [is, Window.push, List.map_cons, List.map_cons, recorded.url, ih later]

theorem windowOf_parts (honest : ∀ item ∈ items, ∀ source, item.2 = .kept source → Honest digest source) :
    (windowOf T S plan admitted_tokens items).parts =
      (items.zip (windowOf T S plan admitted_tokens items).sources).filterMap fun entry =>
        if entry.2.admitted then entry.1.2.kept?.map (partOf entry.1.1) else none := by
  induction items generalizing admitted_tokens with
  | nil => rfl
  | cons item rest ih =>
    obtain ⟨here, later⟩ := List.forall_mem_cons.mp honest
    obtain ⟨record, part, recorded, is⟩ := windowOf_cons T S plan admitted_tokens item rest here
    rw [is, Window.push, List.zip_cons_cons, List.filterMap_cons, ← recorded.part_of, ← ih later]
    cases part <;> rfl

theorem windowOf_admitted (honest : ∀ item ∈ items, ∀ source, item.2 = .kept source → Honest digest source)
    {index : Nat} {item : ContextEnvelope × Fate} {record : SourceRecord} (there : items[index]? = some item)
    (is : (windowOf T S plan admitted_tokens items).sources[index]? = some record) :
    record.admitted = true ↔ ∃ source, item.2 = .kept source ∧ emptied source = false ∧
      fits plan.budget (admitted_tokens + spent ((windowOf T S plan admitted_tokens items).sources.take index) +
        approximate_tokens source.text) = true := by
  induction items generalizing admitted_tokens index with
  | nil => cases there
  | cons first rest ih =>
    obtain ⟨here, later⟩ := List.forall_mem_cons.mp honest
    obtain ⟨head, part, recorded, pushed⟩ := windowOf_cons T S plan admitted_tokens first rest here
    rw [pushed] at is ⊢
    cases index with
    | zero =>
      cases there
      cases is
      exact recorded.admitted
    | succ index =>
      rw [Window.push, List.getElem?_cons_succ] at is
      rw [List.getElem?_cons_succ] at there
      rw [ih later there is, Window.push, List.take_succ_cons, spent_cons, spent_cons, Nat.add_assoc admitted_tokens]
      rfl

theorem windowOf_tokens (honest : ∀ item ∈ items, ∀ source, item.2 = .kept source → Honest digest source) :
    (windowOf T S plan admitted_tokens items).context_tokens_admitted =
        ((windowOf T S plan admitted_tokens items).parts.map fun part => approximate_tokens part.text).sum ∧
      (windowOf T S plan admitted_tokens items).context_tokens_admitted =
        spent (windowOf T S plan admitted_tokens items).sources ∧
      ∀ part ∈ (windowOf T S plan admitted_tokens items).parts, part.content_hash = digest part.text := by
  induction items generalizing admitted_tokens with
  | nil => exact ⟨rfl, rfl, fun _ held => nomatch held⟩
  | cons item rest ih =>
    obtain ⟨here, later⟩ := List.forall_mem_cons.mp honest
    obtain ⟨record, part, recorded, pushed⟩ := windowOf_cons T S plan admitted_tokens item rest here
    obtain ⟨parts, sources, hashes⟩ := @ih (admitted_tokens + spent [record]) later
    have taken := recorded.part_of
    rw [pushed, Window.push]
    generalize windowOf T S plan (admitted_tokens + spent [record]) rest = others at parts sources hashes
    cases admitted : record.admitted with
    | false =>
      rw [admitted] at taken
      subst taken
      refine ⟨parts, ?_, hashes⟩
      rw [spent_cons, admitted, sources]
      exact (Nat.zero_add _).symm
    | true =>
      obtain ⟨source, kept, _⟩ := recorded.admitted.mp admitted
      rw [admitted, kept] at taken
      subst taken
      obtain ⟨tokens, hash⟩ := recorded.tokens _ rfl
      refine ⟨?_, ?_, List.forall_mem_cons.mpr ⟨hash, hashes⟩⟩
      · show record.tokens + _ = approximate_tokens source.text + _
        rw [tokens, parts]
        rfl
      · rw [spent_cons, admitted, sources]
        rfl

theorem windowOf_fits (honest : ∀ item ∈ items, ∀ source, item.2 = .kept source → Honest digest source)
    (room : fits plan.budget admitted_tokens = true) :
    fits plan.budget (admitted_tokens + spent (windowOf T S plan admitted_tokens items).sources) = true := by
  induction items generalizing admitted_tokens with
  | nil => exact room
  | cons item rest ih =>
    obtain ⟨here, later⟩ := List.forall_mem_cons.mp honest
    obtain ⟨record, part, recorded, pushed⟩ := windowOf_cons T S plan admitted_tokens item rest here
    have next : fits plan.budget (admitted_tokens + spent [record]) = true := by
      rw [spent_cons]
      cases admitted : record.admitted with
      | false => exact room
      | true =>
        obtain ⟨source, kept, _, enough⟩ := recorded.admitted.mp admitted
        have taken := recorded.part_of
        rw [admitted, kept] at taken
        rw [if_pos rfl, (recorded.tokens (partOf item.1 source) taken).1]
        exact enough
    have whole := ih later next
    rw [pushed, Window.push]
    generalize windowOf T S plan (admitted_tokens + spent [record]) rest = others at whole ⊢
    rw [spent_cons, ← Nat.add_assoc]
    rwa [spent_cons] at whole

end

/-- The source of that text passes both declarations in the stricter of their modes, the cost and the screen. -/
structure Lets (T : Texts) (S : Screens) (plan : Plan) (envelope : ContextEnvelope) (text : List Char) : Prop where
  given : envelope.text = some text
  home : ∀ policy ∈ plan.policy, policy.authority.is_refusal = false ∧
    (source_admission_from T { policy.job with policy_mode := enforcement_mode plan.policy plan.suite } envelope
      (some plan.provider)).is_refusal = false
  suite : (source_admission_from T { plan.suite with policy_mode := enforcement_mode plan.policy plan.suite } envelope
    (some plan.provider)).is_refusal = false
  cost : (plan.cost T).is_refusal = false
  injection : (injection_ruling S (enforcement_mode plan.policy plan.suite) envelope.source_url text).is_refusal = false

theorem usable_iff {envelope : ContextEnvelope} {text : List Char} (is : envelope.text = some text) :
    plan.usable T S envelope = true ↔ (plan.admission T envelope).is_refusal = false ∧ (plan.cost T).is_refusal = false ∧
      (injection_ruling S (enforcement_mode plan.policy plan.suite) envelope.source_url text).is_refusal = false := by
  unfold Plan.usable Plan.injection Plan.screenable
  cases (plan.admission T envelope).is_refusal <;> cases (plan.cost T).is_refusal <;> simp [is]

theorem admission_iff (plan : Plan) {envelope : ContextEnvelope} :
    (plan.admission T envelope).is_refusal = false ↔
      (∀ policy ∈ plan.policy, policy.authority.is_refusal = false ∧
        (source_admission_from T { policy.job with policy_mode := enforcement_mode plan.policy plan.suite } envelope
          (some plan.provider)).is_refusal = false) ∧
      (source_admission_from T { plan.suite with policy_mode := enforcement_mode plan.policy plan.suite } envelope
        (some plan.provider)).is_refusal = false := by
  rw [← Bool.not_eq_true, Plan.admission, check_policy_refuses]
  simp

theorem offered_iff {envelope : ContextEnvelope} {text : List Char} :
    plan.offered T S envelope = some text ↔ Lets T S plan envelope text := by
  unfold Plan.offered
  constructor
  · intro offered
    split at offered
    · rename_i usable
      obtain ⟨admission, cost, injection⟩ := (usable_iff offered).mp usable
      obtain ⟨home, suite⟩ := (admission_iff plan).mp admission
      exact ⟨offered, home, suite, cost, injection⟩
    · cases offered
  · intro lets
    rw [if_pos ((usable_iff lets.given).mpr ⟨(admission_iff plan).mpr ⟨lets.home, lets.suite⟩, lets.cost, lets.injection⟩)]
    exact lets.given

def Room (plan : Plan) (tokens : Nat) : Prop :=
  (∀ budget ∈ plan.suite.maximum_context_tokens, tokens ≤ budget) ∧
    ∀ policy ∈ plan.policy, ∀ budget ∈ policy.job.maximum_context_tokens, tokens ≤ budget

theorem fits_budget (tokens : Nat) : fits plan.budget tokens = true ↔ Room plan tokens := by
  unfold fits Plan.budget context_budget Room
  cases plan.policy with
  | none => cases plan.suite.maximum_context_tokens <;> simp
  | some policy =>
    cases plan.suite.maximum_context_tokens <;>
      cases home : policy.job.maximum_context_tokens <;> simp [home, Nat.le_min]

structure Meets (T : Texts) (S : Screens) (digest : List Char → String) (plan : Plan) (envelope : ContextEnvelope)
    (fate : Fate) : Prop where
  crosses : fate ≠ .unusable ↔ ∃ text, Lets T S plan envelope text
  own : ∀ source, fate = .kept source → Honest digest source ∧ source.envelope.source_url = envelope.source_url ∧
    ∃ text, envelope.text = some text ∧ source.input_hash = digest text

theorem fates_meet (state : State) (envelopes : List ContextEnvelope) :
    List.Forall₂ (Meets T S digest plan) envelopes (fates T S casing digest plan state envelopes) := by
  induction envelopes generalizing state with
  | nil => exact .nil
  | cons envelope rest ih =>
    cases offered : plan.offered T S envelope with
    | none =>
      rw [fates_none offered]
      refine .cons ⟨iff_of_false (fun unusable => unusable rfl) ?_, fun _ held => nomatch held⟩ (ih state)
      rintro ⟨text, lets⟩
      rw [offered_iff.mpr lets] at offered
      cases offered
    | some text =>
      rw [fates_some offered]
      have lets := offered_iff.mp offered
      refine .cons ?_ (ih _)
      unfold outcomeOf
      cases state.seen_sources.find? fun seen => seen.1 = Optimise.canonical casing (Plan.sourceOf envelope text).text with
      | some seen => exact ⟨iff_of_true (fun same => nomatch same) ⟨text, lets⟩, fun _ held => nomatch held⟩
      | none =>
        refine ⟨iff_of_true (fun same => nomatch same) ⟨text, lets⟩, ?_⟩
        rintro _ ⟨⟩
        exact ⟨⟨rfl, rfl⟩, rfl, text, lets.given, rfl⟩

def Plan.crossing (T : Texts) (S : Screens) (plan : Plan) : List Source :=
  plan.envelopes.filterMap fun envelope => (plan.offered T S envelope).map (Plan.sourceOf envelope)

theorem optimisable_crossing (envelopes : List ContextEnvelope) (index : Nat) :
    (plan.optimisable T S (envelopes.zipIdx index)).map Prod.snd =
      envelopes.filterMap fun envelope => (plan.offered T S envelope).map (Plan.sourceOf envelope) := by
  induction envelopes generalizing index with
  | nil => rfl
  | cons envelope rest ih =>
    cases offered : plan.offered T S envelope with
    | none => rw [optimisable_none offered, ih, List.filterMap_cons, offered]; rfl
    | some text => rw [optimisable_some offered, List.map_cons, ih, List.filterMap_cons, offered]; rfl

/-! ### The window -/

structure Exact (T : Texts) (S : Screens) (casing : Casing) (digest : List Char → String) (plan : Plan) (window : Window)
    (fates : List Fate) : Prop where
  meets : List.Forall₂ (Meets T S digest plan) plan.envelopes fates
  kept : fates.filterMap Fate.kept? = (Optimise.invoke casing digest (plan.crossing T S)).kept
  dropped : fates.filterMap Fate.dropped? = (Optimise.invoke casing digest (plan.crossing T S)).dropped
  urls : window.sources.map SourceRecord.url = plan.envelopes.map ContextEnvelope.source_url
  admitted : ∀ (index : Nat) fate record, fates[index]? = some fate → window.sources[index]? = some record →
    (record.admitted = true ↔ ∃ source, fate = .kept source ∧ emptied source = false ∧
      Room plan (spent (window.sources.take index) + approximate_tokens source.text))
  parts : window.parts = ((plan.envelopes.zip fates).zip window.sources).filterMap fun entry =>
    if entry.2.admitted then entry.1.2.kept?.map (partOf entry.1.1) else none
  hashes : ∀ part ∈ window.parts, part.content_hash = digest part.text
  tokens : window.context_tokens_admitted = (window.parts.map fun part => approximate_tokens part.text).sum
  counted : window.context_tokens_admitted = spent window.sources
  budget : Room plan window.context_tokens_admitted

theorem lets_alone {envelope : ContextEnvelope} {text : List Char} (lets : Lets T S plan envelope text) :
    Lets T S { plan with policy := none } envelope text := by
  have alone : ∀ check : ContextJob → Ruling, Disciplined check →
      (check_policy plan.policy plan.suite check).is_refusal = false →
      (check_policy none plan.suite check).is_refusal = false := by
    intro check disciplined lets
    rw [← Bool.not_eq_true]
    intro refused
    rw [check_policy_alone disciplined refused] at lets
    cases lets
  obtain ⟨home, suite⟩ := (admission_iff { plan with policy := none }).mp
    (alone _ (source_admission_disciplined T envelope (some plan.provider)) ((admission_iff plan).mpr ⟨lets.home, lets.suite⟩))
  refine ⟨lets.given, home, suite, ?_, ?_⟩
  · have cost := lets.cost
    unfold Plan.cost at cost ⊢
    dsimp only
    split
    · rename_i charge trial_covered quoted
      rw [quoted] at cost
      exact alone _ (purchase_decision_disciplined T charge trial_covered) cost
    · rename_i unquoted
      rw [unquoted] at cost
      exact alone _ (acquisition_cost_disciplined T plan.charge) cost
  · have injection := lets.injection
    unfold injection_ruling at injection ⊢
    cases screened : S.injection text with
    | none => rfl
    | some found =>
      rw [screened] at injection
      dsimp only at injection ⊢
      rw [enforcement_mode_none, ← Bool.not_eq_true]
      intro refused
      have strict := strict_of_le (le_enforcement_mode plan.policy plan.suite) (breach_refused refused)
      rw [strict] at injection
      cases injection

/-- The parts handed to inference are the sources every stage lets through and that fit whole, no expectation of the
loop fails, and what a source policy lets through the suite alone does. -/
theorem window_exact (T : Texts) (S : Screens) (casing : Casing) (digest : List Char → String) (plan : Plan) :
    (∃ window fates, plan.window T S casing digest = some window ∧ Exact T S casing digest plan window fates) ∧
    ∀ envelope text, Lets T S plan envelope text → Lets T S { plan with policy := none } envelope text := by
  refine ⟨⟨_, fates T S casing digest plan {} plan.envelopes, walk_windowOf plan.envelopes {} 0 0, ?_⟩, fun _ _ => lets_alone⟩
  have meet : List.Forall₂ (Meets T S digest plan) plan.envelopes (fates T S casing digest plan {} plan.envelopes) :=
    fates_meet {} plan.envelopes
  obtain ⟨length, each⟩ := List.forall₂_iff_zip.mp meet
  have honest : ∀ item ∈ plan.envelopes.zip (fates T S casing digest plan {} plan.envelopes),
      ∀ source, item.2 = .kept source → Honest digest source := fun item listed source is => ((each listed).own source is).1
  obtain ⟨keeps, drops⟩ := @fates_place T S casing digest plan {} plan.envelopes 0
  obtain ⟨kept, dropped⟩ := @place_invoke casing digest {} (plan.optimisable T S plan.envelopes.zipIdx)
  rw [List.nil_append, optimisable_crossing] at kept dropped
  obtain ⟨tokens, counted, hashes⟩ := @windowOf_tokens T S digest plan _ 0 honest
  refine ⟨meet, keeps.trans kept, drops.trans dropped, ?_, ?_, windowOf_parts honest, hashes, tokens, counted, ?_⟩
  · rw [windowOf_urls honest]
    exact List.map_map.symm.trans (congrArg _ (List.map_fst_zip length.le))
  · intro index fate record there is
    have within : index < plan.envelopes.length := by
      rw [length]
      exact (List.getElem?_eq_some_iff.mp there).1
    have paired : (plan.envelopes.zip (fates T S casing digest plan {} plan.envelopes))[index]? =
        some (plan.envelopes[index], fate) := by
      rw [List.getElem?_zip_eq_some]
      exact ⟨List.getElem?_eq_getElem _, there⟩
    rw [windowOf_admitted honest paired is]
    simp only [fits_budget, Nat.zero_add]
  · rw [counted, ← fits_budget]
    have room : fits plan.budget 0 = true := (fits_budget 0).mpr ⟨fun _ _ => Nat.zero_le _, fun _ _ _ _ => Nat.zero_le _⟩
    have whole := @windowOf_fits T S digest plan _ 0 honest room
    rwa [Nat.zero_add] at whole

def plainTexts : Texts := ⟨id, id, fun _ => ""⟩

def noScreens : Screens := ⟨fun _ _ => none, fun _ => none⟩

def page (host text : String) : ContextEnvelope :=
  ⟨"https://" ++ host ++ "/", host, none, none, .unknown, none, some text.toList⟩

def crowded : Plan where
  policy := some ⟨⟨.strict, [.deniedSourceHost "first.test"]⟩, .allowed⟩
  suite := ⟨.strict, [.maximumContextTokens 2]⟩
  provider := "search"
  quote := none
  envelopes := [page "first.test" "one two", page "second.test" "three four"]
  charge := ⟨none, none⟩

/-- The room a policy's refusal leaves lets a later source in that the suite alone keeps out. -/
theorem refusal_makes_room : ∃ part,
    part ∈ ((crowded.window plainTexts noScreens .ascii String.ofList).map Window.parts).getD [] ∧
    part ∉ (({ crowded with policy := none }.window plainTexts noScreens .ascii String.ofList).map Window.parts).getD [] :=
  ⟨⟨"https://second.test/", "three four", "three four".toList⟩, by decide +kernel, by decide +kernel⟩

end CommonMeasure.Admission
