import CommonMeasure.Mediation.Sending

/-!
# Every request of a fetch is one its bounds allow

What each program of a fetch may add to what has happened, from the chain of redirects up: a chain sends where its next URL is cleared,
and each check of a redirect clears the URL it passes.
-/

namespace CommonMeasure.Mediation.Sending

open Foundation Foundation.Traced

variable {Address Read Declared : Type} {b : Bounds Address} {w : World Address Read Declared} {asked : String}

/-! ### What may happen -/

structure Sendable (b : Bounds Address) (asked : String) (before : List (Event Address)) (request : Request Address) :
    Prop where
  looked_up : .looked_up request.url ∈ before
  reaches : b.reaches_allowed_addresses request.url request.addresses = true
  turned : request.page = true → .turned request.url ∈ before
  profile : request.page = true → b.anchor_for request.url = b.anchor_for asked
  anchored : (b.anchor_for asked).isSome = true → request.signed = false ∧ request.content_telemetry_id = none
  unsigned : (b.anchor_for request.url).isSome = true → request.signed = false
  pass : ∀ pass, request.authorization = some pass →
    request.page = true ∧ (b.anchor_for asked).isSome = true ∧ .passed request.url pass ∈ before

def Permits (b : Bounds Address) (asked : String) (before : List (Event Address)) : Event Address → Prop
  | .checked url => b.allows url = true
  | .looked_up url => .checked url ∈ before
  | .turned url => .ruled url ∈ before
  | .passed url _ => ∃ response, .answered url response ∈ before ∧ asks_for_a_pass response = true
  | .sent request => Sendable b asked before request
  | _ => True

abbrev Free {α : Type} (b : Bounds Address) (asked : String) (program : Traced (Event Address) α) : Prop :=
  Runs (Permits b asked) (fun _ => True) program fun _ _ => True

theorem allowed_runs {url : String} :
    Runs (Permits b asked) (fun _ => True) (allowed b url) fun admitted trace => admitted = true → .checked url ∈ trace := by
  unfold allowed
  split
  · rename_i allows
    refine Runs.emit (fun _ _ => allows) (fun trace _ => List.mem_append_right trace (List.mem_singleton_self _)) ?_
    exact Runs.pure fun _ here _ => here
  · exact Runs.pure fun _ _ is => nomatch is

namespace Chain

structure Bounded (b : Bounds Address) (asked : String) (chain : Chain) : Prop where
  anchored : (b.anchor_for asked).isSome = true → chain.identity = false ∧ chain.content_telemetry_id = none
  pass : ∀ pass, chain.authorization = some pass → chain.page = true ∧ (b.anchor_for asked).isSome = true

structure Clears (b : Bounds Address) (asked : String) (chain : Chain) (url : String) (trace : List (Event Address)) :
    Prop where
  turned : chain.page = true → .turned url ∈ trace
  profile : chain.page = true → b.anchor_for url = b.anchor_for asked
  unsigned : (b.anchor_for url).isSome = true → chain.identity = false

structure At (b : Bounds Address) (asked : String) (chain : Chain) (hop : Nat) (url : String)
    (trace : List (Event Address)) : Prop where
  checked : .checked url ∈ trace
  clears : chain.Clears b asked url trace
  passed : hop = 0 → ∀ pass, chain.authorization = some pass → .passed url pass ∈ trace

end Chain

variable {chain : Chain} {hop : Nat} {url : String}

theorem clears_stable : Stable (chain.Clears b asked url) := fun trace more clears =>
  ⟨fun page => stable_mem _ trace more (clears.turned page), clears.profile, clears.unsigned⟩

theorem at_stable : Stable (chain.At b asked hop url) := fun trace more at_ =>
  ⟨stable_mem _ trace more at_.checked, clears_stable trace more at_.clears,
    fun first pass is => stable_mem _ trace more (at_.passed first pass is)⟩

theorem at_sendable (bounded : chain.Bounded b asked) {trace : List (Event Address)} {addresses : List Address}
    (at_ : chain.At b asked hop url trace) (looked_up : .looked_up url ∈ trace)
    (reaches : b.reaches_allowed_addresses url addresses = true) : Sendable b asked trace (chain.request b hop url addresses) where
  looked_up := looked_up
  reaches := reaches
  turned := at_.clears.turned
  profile := at_.clears.profile
  anchored anchored := by
    obtain ⟨unsigned, unnamed⟩ := bounded.anchored anchored
    refine ⟨unsigned, ?_⟩
    show (if b.host_of url = b.host_of chain.first then chain.content_telemetry_id else none) = none
    rw [unnamed, ite_self]
  unsigned := at_.clears.unsigned
  pass pass is := by
    change (if hop = 0 then chain.authorization else none) = some pass at is
    split at is
    · rename_i first
      obtain ⟨page, anchored⟩ := bounded.pass pass is
      exact ⟨page, anchored, at_.passed first pass is⟩
    · cases is

def Answers (b : Bounds Address) (asked : String) (chain : Chain) (probed : Probed) (trace : List (Event Address)) : Prop :=
  ∀ url response, probed = some (url, response) →
    .checked url ∈ trace ∧ chain.Clears b asked url trace ∧ .answered url response ∈ trace

theorem answers_none {before : List (Event Address) → Prop} :
    Runs (Permits b asked) before (pure none : Traced (Event Address) Probed) (Answers b asked chain) :=
  Runs.pure fun _ _ _ _ is => nomatch is

theorem follow_runs {on_hop : String → Traced (Event Address) Bool} (bounded : chain.Bounded b asked)
    (clears : ∀ next, Runs (Permits b asked) (fun _ => True) (on_hop next)
      fun passes trace => passes = true → chain.Clears b asked next trace) :
    ∀ left hop current, Runs (Permits b asked) (chain.At b asked hop current) (follow_resolving b w on_hop chain left hop current)
      (Answers b asked chain) := by
  intro left
  induction left with
  | zero => exact fun _ _ => answers_none
  | succ left next_runs =>
    intro hop current
    unfold follow_resolving
    let looked_up (trace : List (Event Address)) : Prop := chain.At b asked hop current trace ∧ .looked_up current ∈ trace
    have looked_stable : Stable looked_up := at_stable.and (stable_mem _)
    have looks (trace : List (Event Address)) (at_ : chain.At b asked hop current trace) : looked_up (trace ++
      [.looked_up current]) :=
      ⟨at_stable trace _ at_, List.mem_append_right _ (List.mem_singleton_self _)⟩
    refine Runs.emit (fun _ at_ => at_.checked) looks (Runs.consult fun resolved => ?_)
    cases resolved with
    | none => exact answers_none
    | some addresses =>
      simp only
      split
      · exact answers_none
      · rename_i reaches
        rw [Bool.not_eq_true, Bool.not_eq_false'] at reaches
        refine Runs.consult fun ready => ?_
        split
        · exact answers_none
        · refine Runs.emit (fun trace here => at_sendable bounded here.1 here.2 reaches) (fun trace here => looked_stable trace _ here)
            (Runs.consult fun sent => ?_)
          cases sent with
          | none => exact answers_none
          | some response =>
            let answered (trace : List (Event Address)) : Prop :=
              chain.At b asked hop current trace ∧ .answered current response ∈ trace
            have answers (trace : List (Event Address)) (here : looked_up trace) : answered (trace ++
              [.answered current response]) :=
              ⟨at_stable trace _ here.1, List.mem_append_right _ (List.mem_singleton_self _)⟩
            refine Runs.emit (fun _ _ => trivial) answers (Runs.consult fun recorded => ?_)
            split
            · exact answers_none
            split
            · refine Runs.pure fun trace here url other is => ?_
              cases is
              exact ⟨here.1.checked, here.1.clears, here.2⟩
            · cases response.location.bind (w.join current) with
              | none => exact answers_none
              | some next =>
                simp only
                split
                · exact answers_none
                · refine Runs.bind (allowed_runs.weaken (fun _ _ => trivial) fun _ _ left => left) fun admitted => ?_
                  split
                  · exact answers_none
                  · rename_i admits
                    rw [Bool.not_eq_true, Bool.not_eq_false'] at admits
                    refine Runs.bind (((clears next).frame (stable_mem (.checked next))).weaken
                      (fun _ checked => ⟨trivial, checked admits⟩) fun _ _ left => left) fun passes => ?_
                    split
                    · exact answers_none
                    · rename_i passed
                      rw [Bool.not_eq_true, Bool.not_eq_false'] at passed
                      refine (next_runs (hop + 1) next).weaken ?_ fun _ _ left => left
                      exact fun trace here => ⟨here.2, here.1 passed, fun is => (nomatch is)⟩

theorem probe_with_runs {rules : String → Traced (Event Address) Bool} (free : ∀ hop, Free b asked (rules hop)) (url : String) :
    Free b asked (probe_with b w asked rules url) := by
  unfold probe_with
  refine Runs.bind allowed_runs fun admitted => ?_
  split
  · exact Runs.pure fun _ _ => trivial
  · rename_i admits
    rw [Bool.not_eq_true, Bool.not_eq_false'] at admits
    simp only
    generalize is : ((b.anchor_for asked).isSome || (b.anchor_for url).isSome) = anonymous
    have chain_unsigned (anchored : anonymous = true) : (b.signer && !anonymous) = false := by
      rw [anchored, Bool.not_true, Bool.and_false]
    have bounded : Chain.Bounded b asked ⟨url, b.signer && !anonymous, none, none, false⟩ :=
      ⟨fun anchored => ⟨chain_unsigned (by rw [← is, anchored]; rfl), rfl⟩, fun _ is => (nomatch is)⟩
    refine (follow_runs bounded ?_ _ 0 url).weaken ?_ fun _ _ _ => trivial
    · intro hop
      split
      · exact Runs.pure fun _ _ is => nomatch is
      · rename_i carried
        refine (free hop).weaken (fun _ _ => trivial) fun _ _ _ _ => ⟨fun is => (nomatch is), fun is => (nomatch is), ?_⟩
        intro anchored
        refine chain_unsigned ?_
        rw [anchored, Bool.and_true, Bool.not_eq_true, Bool.not_eq_false'] at carried
        exact carried
    · intro trace checked
      refine ⟨checked admits, ⟨fun is => (nomatch is), fun is => (nomatch is), ?_⟩, fun _ _ is => (nomatch is)⟩
      intro anchored
      exact chain_unsigned (by rw [← is, anchored, Bool.or_true])

theorem probe_followed_runs (url : String) : Free b asked (probe_followed b w asked url) :=
  probe_with_runs (fun _ => Runs.pure fun _ _ => trivial) url

theorem probe_ruled_runs (url : String) : Free b asked (probe_ruled b w asked url) := by
  refine probe_with_runs (fun hop => ?_) url
  refine Runs.consult fun rules => ?_
  refine Runs.bind (rules.runs probe_followed_runs) fun allows => ?_
  split
  · exact Runs.pure fun _ _ => trivial
  · exact Runs.consulted fun _ _ _ => trivial

theorem probe_runs (question : String × Redirects) : Free b asked (probe b w asked question) := by
  obtain ⟨url, followed | ruled⟩ := question
  · exact probe_followed_runs url
  · exact probe_ruled_runs url

theorem discover_runs {α : Type} (reads : List (Event Address) → Asks (String × Redirects) Probed α) :
    Free b asked (discover b w asked reads) :=
  Runs.consult fun asks => asks.runs probe_runs

theorem before_fetch_runs (url : String) : Free b asked (before_fetch b w asked url) :=
  Runs.bind (discover_runs _) fun _ => discover_runs _

theorem rule_and_turn_runs (url : String) (declared : Declared) :
    Runs (Permits b asked) (fun _ => True) (rule_and_turn w url declared) fun ruled trace => ruled = true →
      .turned url ∈ trace := by
  unfold rule_and_turn
  refine Runs.consult fun refused => ?_
  split
  · exact Runs.pure fun _ _ is => nomatch is
  · have rules (trace : List (Event Address)) (_ : True) : .ruled url ∈ trace ++ [.ruled url] :=
      List.mem_append_right _ (List.mem_singleton_self _)
    refine Runs.emit (fun _ _ => trivial) rules (Runs.consult fun turned => ?_)
    split
    · exact Runs.pure fun _ _ is => nomatch is
    · refine Runs.emit (fun _ here => here) (fun trace _ => List.mem_append_right trace (List.mem_singleton_self _)) ?_
      exact Runs.pure fun _ here _ => here

theorem profile_same {hop : String} (within : b.within_profile asked hop = true) : b.anchor_for hop = b.anchor_for asked := by
  unfold Bounds.within_profile at within
  split at within
  · rename_i fetch other
    rw [fetch, other]
  · rename_i fetch other
    rw [fetch, other, of_decide_eq_true within]
  · cases within

theorem on_hop_runs (bounded : chain.Bounded b asked) (hop : String) :
    Runs (Permits b asked) (fun _ => True) (on_hop b w asked hop)
    fun passes trace => passes = true → chain.Clears b asked hop trace := by
  unfold on_hop
  refine Runs.consult fun exceeded => ?_
  split
  · exact Runs.pure fun _ _ is => nomatch is
  split
  · exact Runs.pure fun _ _ is => nomatch is
  · rename_i profile
    rw [Bool.not_eq_true, Bool.not_eq_false'] at profile
    have same := profile_same profile
    refine Runs.bind (before_fetch_runs hop) fun declared => ?_
    refine (rule_and_turn_runs hop declared).weaken (fun _ _ => trivial) fun passes trace turned passed => ?_
    exact ⟨fun _ => turned passed, fun _ => same, fun anchored => (bounded.anchored (same ▸ anchored)).1⟩

theorem follow_page_runs (declared : Declared) :
    Runs (Permits b asked) (fun trace => .checked asked ∈ trace ∧ .turned asked ∈ trace) (follow_page b w asked declared)
      fun probed trace => ∀ challenged response, probed = some (challenged, response) →
        .checked challenged ∈ trace ∧ .turned challenged ∈ trace ∧ b.anchor_for challenged = b.anchor_for asked ∧
          .answered challenged response ∈ trace := by
  unfold follow_page
  refine Runs.consult fun id => ?_
  simp only
  have unsigned (anchored : (b.anchor_for asked).isSome = true) : (b.signer && !(b.anchor_for asked).isSome) = false := by
    rw [anchored, Bool.not_true, Bool.and_false]
  have bounded : Chain.Bounded b asked
      ⟨asked, b.signer && !(b.anchor_for asked).isSome, if (b.anchor_for asked).isSome then none else id, none, true⟩ :=
    ⟨fun anchored => ⟨unsigned anchored, if_pos anchored⟩, fun _ is => (nomatch is)⟩
  refine (follow_runs bounded (on_hop_runs bounded) _ 0 asked).weaken ?_ ?_
  · exact fun trace here => ⟨here.1, ⟨fun _ => here.2, fun _ => rfl, unsigned⟩, fun _ _ is => (nomatch is)⟩
  · intro probed trace answers challenged response is
    obtain ⟨checked, clears, answered⟩ := answers challenged response is
    exact ⟨checked, clears.turned rfl, clears.profile rfl, answered⟩

theorem retry_with_pass_runs (first : Probed) :
    Runs (Permits b asked) (fun trace => ∀ challenged response, first = some (challenged, response) →
        .checked challenged ∈ trace ∧ .turned challenged ∈ trace ∧ b.anchor_for challenged = b.anchor_for asked ∧
          .answered challenged response ∈ trace)
      (retry_with_pass b w asked first) fun _ _ => True := by
  unfold retry_with_pass
  split
  · rename_i anchor challenged response anchored
    split
    · exact Runs.pure fun _ _ => trivial
    · rename_i asks
      rw [Bool.not_eq_true, Bool.not_eq_false'] at asks
      refine Runs.consult fun pass => ?_
      cases pass with
      | none => exact Runs.pure fun _ _ => trivial
      | some pass =>
        have bounded : Chain.Bounded b asked ⟨challenged, false, none, some pass, true⟩ :=
          ⟨fun _ => ⟨rfl, rfl⟩, fun _ _ => ⟨rfl, by rw [anchored]; rfl⟩⟩
        refine Runs.emit ?_ ?_ ((follow_runs bounded (on_hop_runs bounded) _ 0 challenged).weaken (fun _ here => here)
          fun _ _ _ => trivial)
        · intro trace here
          obtain ⟨_, _, _, answered⟩ := here challenged response rfl
          exact ⟨response, answered, asks⟩
        · intro trace here
          obtain ⟨checked, turned, profile, _⟩ := here challenged response rfl
          refine ⟨stable_mem _ trace _ checked, ⟨fun _ => stable_mem _ trace _ turned, fun _ => profile, fun _ => rfl⟩, ?_⟩
          rintro _ same ⟨⟩
          exact List.mem_append_right _ (List.mem_singleton_self _)
  · exact Runs.pure fun _ _ => trivial

theorem read_answer_runs (final_url : String) (response : Response) :
    Free b asked (read_answer b w asked final_url response) := by
  unfold read_answer
  refine Runs.bind (discover_runs _) fun declared => Runs.consult fun late => ?_
  split
  · exact discover_runs _
  · exact Runs.pure fun _ _ => trivial

theorem request_runs (declared : Declared) :
    Runs (Permits b asked) (.checked asked ∈ ·) (request b w asked declared) fun _ _ => True := by
  unfold request
  refine Runs.consult fun goes => ?_
  split
  · exact Runs.pure fun _ _ => trivial
  · have turned := ((@rule_and_turn_runs _ _ _ b w asked asked declared).frame (stable_mem (.checked asked))).weaken
      (fun _ checked => ⟨trivial, checked⟩) fun _ _ left => left
    refine Runs.bind turned fun ruled => ?_
    split
    · exact Runs.pure fun _ _ => trivial
    · rename_i rules
      rw [Bool.not_eq_true, Bool.not_eq_false'] at rules
      refine Runs.bind ((follow_page_runs declared).weaken (fun _ here => ⟨here.2, here.1 rules⟩) fun _ _ left => left) fun first =>
        Runs.bind (retry_with_pass_runs first) fun followed => ?_
      cases followed with
      | none => exact Runs.pure fun _ _ => trivial
      | some answer =>
        obtain ⟨final_url, response⟩ := answer
        simp only
        split
        · exact read_answer_runs final_url response
        · exact Runs.pure fun _ _ => trivial

theorem read_early_runs (read : Read) : Free b asked (read_early b w asked read) := by
  refine Runs.consult fun early => ?_
  split
  · exact discover_runs _
  · exact Runs.pure fun _ _ => trivial

theorem fetch_runs : Free b asked (fetch b w asked) := by
  unfold fetch
  refine Runs.bind allowed_runs fun admitted => ?_
  split
  · exact Runs.pure fun _ _ => trivial
  · rename_i admits
    rw [Bool.not_eq_true, Bool.not_eq_false'] at admits
    have kept {α : Type} {program : Traced (Event Address) α} (free : Free b asked program) :
        Runs (Permits b asked) (.checked asked ∈ ·) program fun _ => (.checked asked ∈ ·) := free.keep (stable_mem _)
    have read := (kept (@discover_runs _ _ _ b w asked _ fun trace => w.read_robots trace asked)).weaken
      (fun _ (here : admitted = true → _) => here admits) fun _ _ left => left
    refine Runs.bind read fun read => Runs.bind (kept (read_early_runs read)) fun _ => ?_
    exact Runs.bind (kept (discover_runs _)) request_runs

/-! ### The claim's terms -/

structure Guarded (b : Bounds Address) (asked : String) (before : List (Event Address)) (request : Request Address) : Prop where
  allowed : b.mediates_address request.url = true ∧ b.keeps_off_hub request.url = true ∧
    (b.admit_host request.url).is_refusal = false
  checked : ∃ earlier later, before = earlier ++ .looked_up request.url :: later ∧ .checked request.url ∈ earlier
  reaches : b.reaches_allowed_addresses request.url request.addresses = true
  ruled : request.page = true → ∃ earlier later, before = earlier ++ .turned request.url :: later ∧ .ruled request.url ∈ earlier
  anchored : ∀ anchor, b.anchor_for asked = some anchor → request.signed = false ∧ request.content_telemetry_id = none ∧
    (request.page = true → b.anchor_for request.url = some anchor)
  unanchored : b.anchor_for asked = none → (b.anchor_for request.url).isSome = true → request.signed = false ∧
    request.page = false
  pass : ∀ pass, request.authorization = some pass → request.page = true ∧ b.anchor_for request.url = b.anchor_for asked ∧
    (b.anchor_for asked).isSome = true ∧
      ∃ response, .answered request.url response ∈ before ∧ asks_for_a_pass response = true

theorem guarded_of_sendable {trace before after : List (Event Address)} {request : Request Address}
    (permitted : Permitted (Permits b asked) trace) (is : trace = before ++
      .sent request :: after) : Guarded b asked before request := by
  have sendable : Sendable b asked before request := permitted before (.sent request) after is
  have earlier (event : Event Address) (member : event ∈ before) :
      ∃ earlier later, before = earlier ++ event :: later ∧ Permits b asked earlier event := by
    obtain ⟨earlier, later, rfl⟩ := List.append_of_mem member
    refine ⟨earlier, later, rfl, permitted earlier event (later ++ .sent request :: after) ?_⟩
    rw [is, List.append_assoc]
    rfl
  obtain ⟨early, late, looked, checked⟩ := earlier _ sendable.looked_up
  have allows : b.allows request.url = true := by
    obtain ⟨first, last, is_early, allows⟩ := earlier (.checked request.url) (looked ▸ List.mem_append_left _ checked)
    exact allows
  rw [Bounds.allows, Bool.and_eq_true, Bool.and_eq_true, Bool.not_eq_true'] at allows
  refine ⟨⟨allows.1.1, allows.1.2, allows.2⟩, ⟨early, late, looked, checked⟩, sendable.reaches, ?_, ?_, ?_, ?_⟩
  · intro page
    exact earlier _ (sendable.turned page)
  · intro anchor is_anchor
    obtain ⟨unsigned, unnamed⟩ := sendable.anchored (by rw [is_anchor]; rfl)
    exact ⟨unsigned, unnamed, fun page => (sendable.profile page).trans is_anchor⟩
  · intro none_ anchored
    refine ⟨sendable.unsigned anchored, ?_⟩
    cases page : request.page with
    | false => rfl
    | true =>
      rw [sendable.profile page, none_] at anchored
      cases anchored
  · intro pass carries
    obtain ⟨page, anchored, passed⟩ := sendable.pass pass carries
    obtain ⟨first, last, is_before, response, answered, asks⟩ := earlier _ passed
    exact ⟨page, sendable.profile page, anchored, response, is_before ▸ List.mem_append_left _ answered, asks⟩

/-- Whatever the origins, the resolver and discovery answer, each request of a fetch is one its bounds allow. -/
theorem requests_guarded (b : Bounds Address) (w : World Address Read Declared) (asked : String)
    (before after : List (Event Address))
    (request : Request Address) (sent : (fetch b w asked []).2 = before ++
      .sent request :: after) : Guarded b asked before request :=
  guarded_of_sendable (fetch_runs [] permitted_nil trivial).1 sent

def under_anchor : Bounds Unit where
  mediates_address _ := true
  keeps_off_hub _ := true
  admit_host _ := .allowed
  holds_private_floor := true
  under_internal _ := false
  address_url _ := "http://192.0.2.1/"
  anchor_for _ := some "https://anchor.example"
  host_of _ := "source.example"
  fetchable _ := true
  signer := true

def challenging : World Unit Unit Unit where
  resolve _ _ := some [()]
  budget _ := true
  before_send _ _ := true
  sign_request _ _ := true
  send_to _ request := some (if request.authorization.isSome then ⟨200, none, false⟩ else ⟨401, none, true⟩)
  recorded _ := true
  join _ location := some location
  over_ceiling _ := false
  read_robots _ _ := .done ()
  early_manifest _ _ := false
  resolve_manifest _ _ := .done ()
  read_declared _ _ _ := .done ()
  sends _ _ := true
  authorises _ _ := true
  refuses _ _ _ := false
  take_page_turn _ _ := true
  rule_probe _ _ := .done true
  probe_hop _ _ := true
  content_telemetry_id _ _ := some "id"
  pass_for _ _ _ _ := some "pass"
  after_fetch _ _ _ := .done ()
  late_manifest _ _ := false

theorem requests_guarded_pass : Guarded under_anchor "https://source.example/"
    [.checked "https://source.example/", .ruled "https://source.example/", .turned "https://source.example/",
      .looked_up "https://source.example/", .sent ⟨"https://source.example/", [()], false, none, none, true⟩,
      .answered "https://source.example/" ⟨401, none, true⟩, .passed "https://source.example/" "pass",
      .looked_up "https://source.example/"]
    ⟨"https://source.example/", [()], false, none, some "pass", true⟩ :=
  requests_guarded under_anchor challenging "https://source.example/" _ [.answered "https://source.example/" ⟨200, none, false⟩] _ (by rfl)

end CommonMeasure.Mediation.Sending
