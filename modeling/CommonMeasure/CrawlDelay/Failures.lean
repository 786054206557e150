import CommonMeasure.CrawlDelay.Rewrites

namespace CommonMeasure.CrawlDelay

def Event.Past (event : Event) (old : Backoff) : Prop :=
  old.until_ ≤ event.now ∨ event.sweep.any (old.until_ ≤ ·) = true

section

variable (dates : Dates) (store : Store) (host : String)

def recordAfter (events : List Event) : Kept := runWith (Event.step dates store host) .absent events

structure Paced (event : Event) (kept between after : Kept) : Prop where
  cleared : event.Cleared kept between
  forward : ∀ old next, between = .backoff old → after = .backoff next → old.failureEnd ≤ next.failureEnd
  /-- The record is removed once its failure's end has passed, with a count of zero or by the answer that resets it. -/
  removed : ∀ old, kept = .backoff old → between = .absent ∨ after = .absent →
    old.failureEnd ≤ old.until_ ∧ (between = .absent ∧ event.sweep.any (old.until_ ≤ ·) = true ∧ old.failures = 0 ∨
      old.failureEnd ≤ event.now ∧ (old.failures = 0 ∨ event.Succeeds))
  counted : ∀ old next, between = .backoff old → after = .backoff next → old.failures < next.failures →
    next.failures = old.failures + 1 ∧ event.Fails ∧ (old.failureEnd ≤ event.now ∨ old.failures = 0)
  /-- A reservation, and its deadline, stand against whoever is not its holder. -/
  holder : ∀ old held, kept = .backoff old → old.reservation = some held → event.Foreign held.id →
    (∃ next, after = .backoff next ∧ next.reservation.map Reservation.id = some held.id ∧ old.until_ ≤ next.until_) ∨
      event.Past old

structure Backed (events : List Event) : Prop where
  ordered : ∀ found, recordAfter dates store host events = .backoff found → found.failureEnd ≤ found.until_
  paced : ∀ event, ∃ between,
    Paced event (recordAfter dates store host events) between (recordAfter dates store host (events ++ [event]))
  /-- A failing answer's own wait is kept. -/
  waits : ∀ event status retryAfter reservation early next,
    event.change = .answer status retryAfter reservation early → isFailure status = true →
    event.answered dates store host (recordAfter dates store host events) = some next →
    recordAfter dates store host (events ++ [event]) = .backoff next ∧ ∃ end_,
      answerEnd dates store.platform.latest status retryAfter event.now next.failures = some end_ ∧
        event.now ≤ end_ ∧ end_ ≤ next.failureEnd
  /-- The failure's end is within an hour of the latest failing answer. -/
  bounded : (∀ event ∈ events, event.Timely dates) → ∀ found, recordAfter dates store host events = .backoff found →
    ∃ before event later, events = before ++ event :: later ∧ event.Fails ∧ (∀ other ∈ later, ¬other.Fails) ∧
      found.failureEnd ≤ event.now + seconds 3600
  /-- While the count is not reset, it rises only when the failure's end has passed. -/
  risen : ∀ found more last, recordAfter dates store host events = .backoff found →
    AlongRun (Event.step dates store host) (fun kept _ => kept.failures ≠ 0) (recordAfter dates store host events)
      (more ++ [last]) →
    (recordAfter dates store host (events ++ more)).failures <
      (recordAfter dates store host (events ++ more ++ [last])).failures →
    last.Fails ∧ found.failureEnd ≤ last.now

end

section

variable {dates : Dates} {store : Store} {host : String} {event : Event} {kept between after : Kept} {events : List Event}

theorem swept_cases (kept : Kept) (sweep : Option Int) :
    kept.swept sweep = kept ∨ kept.swept sweep = .absent ∧
      ∃ old, kept = .backoff old ∧ old.failures = 0 ∧ sweep.any (old.until_ ≤ ·) = true := by
  cases kept with
  | backoff old =>
    change (if _ then _ else _) = _ ∨ (if _ then _ else _) = _ ∧ _
    by_cases lapsed : old.failures = 0 ∧ sweep.any (old.until_ ≤ ·) = true
    · rw [if_pos lapsed]
      exact Or.inr ⟨rfl, old, rfl, lapsed⟩
    · rw [if_neg lapsed]
      exact Or.inl rfl
  | _ => exact Or.inl rfl

theorem cleared_cases (cleared : event.Cleared kept between) :
    between = kept ∨ between = .absent ∧
      ∃ old, kept = .backoff old ∧ old.failures = 0 ∧ event.sweep.any (old.until_ ≤ ·) = true := by
  rcases cleared with same | swept
  · exact Or.inl same
  · rw [swept]
    exact swept_cases kept event.sweep

theorem recordAfter_append (events : List Event) (event : Event) :
    recordAfter dates store host (events ++ [event]) = event.step dates store host (recordAfter dates store host events) :=
  runWith_append _ _ _

theorem step_ordered (ready : event.Ready) (ordered : ∀ old, kept = .backoff old → old.Ordered) (next : Backoff)
    (written : event.step dates store host kept = .backoff next) : next.Ordered := by
  obtain ⟨between, cleared, rewrites⟩ := @step_rewrites dates store host event kept
  apply rewrites_ordered ready rewrites ?_ written
  intro old found
  rcases cleared_cases cleared with rfl | ⟨rfl, _⟩
  · exact ordered old found
  · cases found

theorem run_ordered (ready : ∀ event ∈ events, event.Ready) (found : Backoff)
    (left : recordAfter dates store host events = .backoff found) : found.Ordered := by
  induction events using List.reverseRecOn generalizing found with
  | nil => cases left
  | append_singleton events event ih =>
    rw [recordAfter_append] at left
    have earlier : ∀ event ∈ events, event.Ready := fun event listed => ready event (List.mem_append_left _ listed)
    exact step_ordered (ready event (by simp)) (ih earlier) found left

theorem step_holder {old : Backoff} {held : Reservation} (before : kept = .backoff old)
    (reserved : old.reservation = some held) (foreign : event.Foreign held.id) :
    (∃ next, event.step dates store host kept = .backoff next ∧
      next.reservation.map Reservation.id = some held.id ∧ old.until_ ≤ next.until_) ∨ event.Past old := by
  obtain ⟨between, cleared, rewrites⟩ := @step_rewrites dates store host event kept
  rcases cleared_cases cleared with rfl | ⟨rfl, found, same, none_counted, passed⟩
  · rcases rewrites_holder rewrites before reserved foreign with stands | ⟨_, lapsed⟩
    · exact Or.inl stands
    · exact Or.inr (Or.inl lapsed)
  · obtain rfl := Kept.backoff.inj (before.symm.trans same)
    exact Or.inr (Or.inr passed)

theorem step_paced (ordered : ∀ old, kept = .backoff old → old.Ordered) :
    ∃ between, Paced event kept between (event.step dates store host kept) := by
  obtain ⟨between, cleared, rewrites⟩ := @step_rewrites dates store host event kept
  refine ⟨between, cleared, ?_, ?_, ?_, ?_⟩
  · intro old next before written
    exact rewrites_forward rewrites before written
  · intro old before gone
    refine ⟨ordered old before, ?_⟩
    rcases cleared_cases cleared with rfl | ⟨rfl, found, same, none_counted, passed⟩
    · have removed : event.step dates store host between = .absent :=
        gone.resolve_left fun absent => by rw [before] at absent; cases absent
      exact Or.inr (rewrites_removed rewrites (ordered old before) before removed)
    · obtain rfl := Kept.backoff.inj (before.symm.trans same)
      exact Or.inl ⟨rfl, passed, none_counted⟩
  · intro old next before written rises
    exact rewrites_counted rewrites before written rises
  · intro old held before reserved foreign
    exact step_holder before reserved foreign

theorem step_waits {status : Nat} {retryAfter reservation : Option String} {early : Kept} {next : Backoff}
    (change : event.change = .answer status retryAfter reservation early) (failing : isFailure status = true)
    (returned : event.answered dates store host kept = some next) :
    event.step dates store host kept = .backoff next ∧ ∃ end_,
      answerEnd dates store.platform.latest status retryAfter event.now next.failures = some end_ ∧
        event.now ≤ end_ ∧ end_ ≤ next.failureEnd := by
  unfold Event.answered at returned
  unfold Event.step
  rw [change] at returned ⊢
  dsimp only at returned ⊢
  cases done : store.answer dates host status retryAfter event.now reservation early event.sweep event.files kept with
  | mk result after =>
    rw [done] at returned
    obtain ⟨between, _, _, recorded⟩ := answer_rewrites change done
    cases result with
    | error fault => cases returned
    | ok answer =>
      obtain rfl : answer = some next := returned
      obtain ⟨written, counted⟩ := recorded failing next rfl
      refine ⟨written, ?_⟩
      have count := failed_failures counted
      obtain ⟨own, ends, fresh, rfl⟩ := failed_over counted
      rw [count]
      refine ⟨own.until_, ends, answerEnd_now ends, ?_⟩
      cases found : between.found with
      | none => exact (failureEnd_fresh fresh).ge
      | some old =>
        rw [over_failureEnd fresh]
        exact le_max_left _ _

theorem step_bounded {next : Backoff} (written : event.step dates store host kept = .backoff next) :
    (∃ old, kept = .backoff old ∧ next.failureEnd ≤ old.failureEnd) ∨
      event.Fails ∧ (event.Timely dates → next.failureEnd ≤ event.now + seconds 3600) := by
  obtain ⟨between, cleared, rewrites⟩ := @step_rewrites dates store host event kept
  rcases rewrites_end rewrites written with ⟨old, found, earlier⟩ | answered
  · rcases cleared_cases cleared with rfl | ⟨rfl, _⟩
    · exact Or.inl ⟨old, found, earlier⟩
    · cases found
  · exact Or.inr answered

theorem run_bounded (clock : events.Pairwise fun a b => a.now ≤ b.now) (timely : ∀ event ∈ events, event.Timely dates)
    (found : Backoff) (left : recordAfter dates store host events = .backoff found) :
    ∃ before event later, events = before ++ event :: later ∧ event.Fails ∧ (∀ other ∈ later, ¬other.Fails) ∧
      found.failureEnd ≤ event.now + seconds 3600 := by
  induction events using List.reverseRecOn generalizing found with
  | nil => cases left
  | append_singleton events last ih =>
    rw [recordAfter_append] at left
    obtain ⟨ordered, _, follows⟩ := List.pairwise_append.mp clock
    have earlier : ∀ event ∈ events, event.Timely dates := fun event listed => timely event (List.mem_append_left _ listed)
    rcases step_bounded left with ⟨old, was, kept_end⟩ | ⟨fails, within⟩
    · obtain ⟨before, event, later, rfl, failed, quiet, bound⟩ := ih ordered earlier old was
      by_cases fails : last.Fails
      · refine ⟨before ++ event :: later, last, [], rfl, fails, by simp, ?_⟩
        have clocked : event.now ≤ last.now := follows event (by simp) last (by simp)
        omega
      · refine ⟨before, event, later ++ [last], by simp, failed, ?_, by omega⟩
        intro other listed
        rcases List.mem_append.mp listed with listed | same
        · exact quiet other listed
        · rw [List.mem_singleton.mp same]
          exact fails
    · exact ⟨events, last, [], rfl, fails, by simp, within (timely last (by simp))⟩

theorem step_counting {old : Backoff} (found : kept = .backoff old) (counting : old.failures ≠ 0) :
    Rewrites dates store event kept (event.step dates store host kept) := by
  obtain ⟨between, cleared, rewrites⟩ := @step_rewrites dates store host event kept
  rcases cleared_cases cleared with rfl | ⟨_, other, same, none_counted, _⟩
  · exact rewrites
  · obtain rfl := Kept.backoff.inj (found.symm.trans same)
    exact absurd none_counted counting

theorem found_of_counting (counting : kept.failures ≠ 0) : ∃ old, kept = .backoff old ∧ old.failures ≠ 0 := by
  cases kept with
  | backoff old => exact ⟨old, rfl, counting⟩
  | _ => exact absurd rfl counting

theorem run_forward {old : Backoff} {more : List Event} (found : kept = .backoff old)
    (along : AlongRun (Event.step dates store host) (fun kept _ => kept.failures ≠ 0) kept more)
    (counting : (runWith (Event.step dates store host) kept more).failures ≠ 0) :
    ∃ next, runWith (Event.step dates store host) kept more = .backoff next ∧ old.failureEnd ≤ next.failureEnd := by
  induction more generalizing kept old with
  | nil => exact ⟨old, found, le_refl _⟩
  | cons event more ih =>
    obtain ⟨counts, rest⟩ := along
    have after : (event.step dates store host kept).failures ≠ 0 := by
      cases more with
      | nil => exact counting
      | cons next more => exact rest.1
    obtain ⟨next, stepped, _⟩ := found_of_counting after
    obtain ⟨last, ran, forward⟩ := ih stepped rest counting
    subst found
    have first := rewrites_forward (step_counting rfl counts) rfl stepped
    exact ⟨last, ran, first.trans forward⟩

theorem run_risen {found : Backoff} {more : List Event} {last : Event}
    (left : recordAfter dates store host events = .backoff found)
    (along : AlongRun (Event.step dates store host) (fun kept _ => kept.failures ≠ 0)
      (recordAfter dates store host events) (more ++ [last]))
    (rises : (recordAfter dates store host (events ++ more)).failures <
      (recordAfter dates store host (events ++ more ++ [last])).failures) :
    last.Fails ∧ found.failureEnd ≤ last.now := by
  obtain ⟨along, counting, _⟩ := AlongRun.append.mp along
  obtain ⟨old, ran, forward⟩ := run_forward left along counting
  have before : recordAfter dates store host (events ++ more) = .backoff old := by
    unfold recordAfter
    rw [runWith_append]
    exact ran
  rw [recordAfter_append, before] at rises
  have counts : old.failures ≠ 0 := by
    rw [ran] at counting
    exact counting
  obtain ⟨next, after, _⟩ := found_of_counting (Nat.ne_of_gt (Nat.zero_lt_of_lt rises))
  rw [after] at rises
  obtain ⟨_, fails, elapsed⟩ := rewrites_counted (step_counting rfl counts) rfl after rises
  exact ⟨fails, forward.trans (elapsed.resolve_right counts)⟩

/-- Whatever answers, reservations and releases come, with clock values that do not decrease. -/
theorem failures_kept (dates : Dates) (store : Store) (host : String) (events : List Event)
    (ready : ∀ event ∈ events, event.Ready) (clock : events.Pairwise fun a b => a.now ≤ b.now) :
    Backed dates store host events := by
  refine ⟨?_, ?_, ?_, ?_, ?_⟩
  · exact run_ordered ready
  · intro event
    rw [recordAfter_append]
    exact step_paced (run_ordered ready)
  · intro event status retryAfter reservation early next change failing returned
    rw [recordAfter_append]
    exact step_waits change failing returned
  · intro timely found left
    exact run_bounded clock timely found left
  · intro found more last left along rises
    exact run_risen left along rises

end

/-! ### One host's failures -/

def undated : Dates := ⟨fun _ => none, fun _ _ => rfl⟩

def answerAt (now : Nat) (status : Nat) (reservation : Option String) (early : Kept) : Event :=
  ⟨.answer status none reservation early, seconds now, none, .done⟩

def reserveAt (now : Nat) (id : String) (read : Backoff) : Event := ⟨.reserve read id (seconds 5), seconds now, none, .done⟩

def failedAt (now : Nat) : Backoff := ⟨1, 502, seconds (now + 10), false, false, none, none⟩

theorem failures_kept_reserved : Backed undated edge "publisher.example"
    [answerAt 0 502 none .absent, reserveAt 10 "first" (failedAt 0), answerAt 11 503 (some "first") .absent] := by
  apply failures_kept
  · simp only [List.forall_mem_cons, List.not_mem_nil, false_implies, implies_true, and_true]
    refine ⟨?_, ?_, ?_⟩
    · rintro read id timeout change
      cases change
    · rintro read id timeout change
      cases change
      exact le_refl _
    · rintro read id timeout change
      cases change
  · decide

/-- A success between two failures of one period lets it be counted again; and a success that is not the holder's
removes the record of a reservation whose deadline has passed. -/
theorem failures_recounted :
    (recordAfter undated edge "publisher.example" [answerAt 0 502 none .absent] = .backoff (failedAt 0) ∧
      (recordAfter undated edge "publisher.example"
        [answerAt 0 502 none .absent, answerAt 1 200 none (.backoff (failedAt 0))]).failures = 0 ∧
      (recordAfter undated edge "publisher.example"
        [answerAt 0 502 none .absent, answerAt 1 200 none (.backoff (failedAt 0)), answerAt 2 502 none .absent]).failures = 1 ∧
      ((seconds 2 : Nat) : Int) < (failedAt 0).failureEnd) ∧
    ((recordAfter undated edge "publisher.example"
        [answerAt 0 502 none .absent, reserveAt 10 "first" (failedAt 0)]).found.bind Backoff.reservation =
          some ⟨"first", seconds 10⟩ ∧
      recordAfter undated edge "publisher.example" [answerAt 0 502 none .absent, reserveAt 10 "first" (failedAt 0),
        answerAt 15 200 none (.backoff (failedAt 0))] = .absent ∧
      (answerAt 15 200 none (.backoff (failedAt 0))).Foreign "first") := by
  refine ⟨by decide, by decide, by decide, Or.inl ⟨_, _, _, _, rfl, by decide⟩⟩

end CommonMeasure.CrawlDelay
