import CommonMeasure.CrawlDelay.Backoff
import CommonMeasure.Foundation.Runs
import CommonMeasure.Foundation.Words

/-!
# What a change makes of a host's record

An answer, a reservation or a release rewrites the record it reads under the host's lock, or leaves it as it is.
-/

namespace CommonMeasure.CrawlDelay

inductive Change where
  | answer (status : Nat) (retryAfter : Option String) (reservation : Option String) (early : Kept)
  | reserve (read : Backoff) (id : String) (timeout : Nat)
  | release (id : String)
  /-- The sweep of a crawl-delay turn. -/
  | turn

/-- A change, the instant its sender reads, and that of its sweep of the host, where its process makes one. -/
structure Event where
  change : Change
  now : Int
  sweep : Option Int
  files : Files

section

variable (dates : Dates) (store : Store) (host : String)

def Event.step (kept : Kept) (event : Event) : Kept :=
  match event.change with
  | .answer status retryAfter reservation early =>
    (store.answer dates host status retryAfter event.now reservation early event.sweep event.files kept).2
  | .reserve read id timeout => (store.reserve host read id event.now timeout event.sweep event.files kept).2
  | .release id => (release host id event.now event.sweep event.files kept).2
  | .turn => kept.swept event.sweep

def Event.answered (kept : Kept) (event : Event) : Option Backoff :=
  match event.change with
  | .answer status retryAfter reservation early =>
    (store.answer dates host status retryAfter event.now reservation early event.sweep event.files kept).1.toOption.join
  | _ => none

def Event.Fails (event : Event) : Prop :=
  ∃ status retryAfter reservation early, event.change = .answer status retryAfter reservation early ∧
    isFailure status = true

def Event.Succeeds (event : Event) : Prop :=
  ∃ status retryAfter reservation early, event.change = .answer status retryAfter reservation early ∧
    isFailure status = false

def Event.Foreign (event : Event) (id : String) : Prop :=
  (∃ status retryAfter reservation early, event.change = .answer status retryAfter reservation early ∧
    reservation ≠ some id) ∨ ∃ other, event.change = .release other ∧ other ≠ id

def Event.Ready (event : Event) : Prop :=
  ∀ read id timeout, event.change = .reserve read id timeout → read.until_ ≤ event.now

def Backoff.Ordered (backoff : Backoff) : Prop := backoff.failureEnd ≤ backoff.until_

def Returned (event : Event) (status : Nat) (retryAfter reservation : Option String)
    (result : Except Fault (Option Backoff)) (kept after : Kept) : Prop :=
  isFailure status = true → ∀ next, result = .ok (some next) → after = .backoff next ∧
    failed dates store.platform.latest status retryAfter event.now
      (kept.found.any fun old => old.ownedBy reservation) kept.found = some next

inductive Rewrites (event : Event) : Kept → Kept → Prop where
  | same kept : Rewrites event kept kept
  | failed status retryAfter reservation early kept next :
      event.change = .answer status retryAfter reservation early → isFailure status = true →
      (kept = .absent ∨ ∃ old, kept = .backoff old) →
      failed dates store.platform.latest status retryAfter event.now
        (kept.found.any fun old => old.ownedBy reservation) kept.found = some next →
      Rewrites event kept (.backoff next)
  | reset status retryAfter reservation early old :
      event.change = .answer status retryAfter reservation early → isFailure status = false →
      Rewrites event (.backoff old) (.backoff (old.reset (old.ownedBy reservation)))
  | removed status retryAfter reservation early old :
      event.change = .answer status retryAfter reservation early → isFailure status = false →
      (old.reset (old.ownedBy reservation)).until_ ≤ event.now → Rewrites event (.backoff old) .absent
  | reserved read id timeout deadline : event.change = .reserve read id timeout →
      store.platform.checkedAdd event.now timeout = some deadline →
      Rewrites event (.backoff read)
        (.backoff { read with until_ := deadline, reservation := some ⟨id, read.failureEnd⟩ })
  | released id old : event.change = .release id → old.ownedBy (some id) = true →
      Rewrites event (.backoff old) (.backoff old.settled)
  | freed id old : event.change = .release id → old.ownedBy (some id) = true → old.settled.until_ ≤ event.now →
      old.failures = 0 → Rewrites event (.backoff old) .absent

end

section

variable {dates : Dates} {store : Store} {host : String} {event : Event} {kept after : Kept}

def Event.Cleared (event : Event) (kept between : Kept) : Prop := between = kept ∨ between = kept.swept event.sweep

theorem written_cases (next : Backoff) (kept : Kept) (files : Files) :
    kept.written next files = kept ∧ (∃ error, files = .write error false) ∨ kept.written next files = .backoff next := by
  cases files with
  | write error renamed =>
    cases renamed with
    | false => exact Or.inl ⟨rfl, error, rfl⟩
    | true => exact Or.inr rfl
  | _ => exact Or.inr rfl

theorem removed_cases (kept : Kept) (files : Files) : kept.removed files = kept ∨ kept.removed files = .absent := by
  unfold Kept.removed
  split
  · exact Or.inl rfl
  · exact Or.inr rfl

theorem keepAnswer_cases {next : Backoff} {now : Int} {files : Files} {result : Except Fault (Option Backoff)}
    (done : keepAnswer host next now files kept = (result, after)) :
    (after = kept ∨ after = .backoff next ∨ after = .absent ∧ next.until_ ≤ now ∧ next.failures = 0) ∧
      (∀ returned, result = .ok returned → next.failures ≠ 0 → returned = some next ∧ after = .backoff next) := by
  unfold keepAnswer at done
  split at done
  · rename_i lapsed
    obtain ⟨rfl, rfl⟩ := Prod.mk.inj done
    refine ⟨?_, fun _ _ counted => absurd lapsed.2 counted⟩
    rcases removed_cases kept files with same | gone
    · exact Or.inl same
    · exact Or.inr (Or.inr ⟨gone, lapsed⟩)
  · obtain ⟨rfl, rfl⟩ := Prod.mk.inj done
    unfold writeBackoff
    rcases written_cases next kept files with ⟨same, error, rfl⟩ | written
    · refine ⟨Or.inl same, ?_⟩
      intro returned ok
      cases ok
    · refine ⟨Or.inr (Or.inl written), ?_⟩
      intro returned ok _
      cases error : files.error with
      | some reason =>
        rw [error] at ok
        cases ok
      | none =>
        rw [error] at ok
        exact ⟨(Except.ok.inj ok).symm, written⟩

theorem counted_pos (now : Int) (previous : Option Backoff) : countedFailures now previous ≠ 0 := by
  unfold countedFailures
  cases previous with
  | none => simp
  | some old =>
    dsimp only
    split
    · omega
    · rename_i early
      exact fun none_counted => early (Or.inr none_counted)

theorem later_failures (next old : Backoff) : (next.later old).failures = next.failures := by
  unfold Backoff.later
  split <;> rfl

theorem later_reservation (next old : Backoff) : (next.later old).reservation = next.reservation := by
  unfold Backoff.later
  split <;> rfl

theorem later_until (next old : Backoff) : (next.later old).until_ = max next.until_ old.failureEnd := by
  unfold Backoff.later
  split
  · exact (max_eq_right_of_lt ‹_›).symm
  · exact (max_eq_left (not_lt.mp ‹_›)).symm

theorem over_failures (next : Backoff) (owns : Bool) (previous : Option Backoff) :
    (next.upon owns previous).failures = next.failures := by
  unfold Backoff.upon
  cases previous with
  | none => rfl
  | some old =>
    dsimp only
    split
    · exact later_failures next old
    · exact later_failures next old

theorem failed_failures {latest : Int} {status : Nat} {retryAfter : Option String} {now : Int} {owns : Bool}
    {previous : Option Backoff} {next : Backoff} (counted : failed dates latest status retryAfter now owns previous = some next) :
    next.failures = countedFailures now previous := by
  obtain ⟨own, _, rfl⟩ := Option.map_eq_some_iff.mp counted
  exact over_failures _ _ _

theorem read_found {previous : Option Backoff} (read : kept.read host = .ok previous) :
    previous = kept.found ∧ (kept = .absent ∨ ∃ old, kept = .backoff old) := by
  cases kept with
  | absent => exact ⟨(Except.ok.inj read).symm, Or.inl rfl⟩
  | unreadable error => cases read
  | unread error => cases read
  | backoff old => exact ⟨(Except.ok.inj read).symm, Or.inr ⟨old, rfl⟩⟩

theorem answerLocked_rewrites {status : Nat} {retryAfter reservation : Option String} {early : Kept} {files : Files}
    {result : Except Fault (Option Backoff)} (change : event.change = .answer status retryAfter reservation early)
    (done : answerLocked dates store host status retryAfter event.now reservation files kept = (result, after)) :
    Rewrites dates store event kept after ∧ Returned dates store event status retryAfter reservation result kept after := by
  unfold answerLocked at done
  cases read : kept.read host with
  | error reason =>
    rw [read] at done
    obtain ⟨rfl, rfl⟩ := Prod.mk.inj done
    exact ⟨.same _, fun _ _ refused => nomatch refused⟩
  | ok previous =>
    obtain ⟨rfl, present⟩ := read_found read
    rw [read] at done
    dsimp only at done
    by_cases failing : isFailure status = true
    · rw [if_pos failing] at done
      cases counted : failed dates store.platform.latest status retryAfter event.now
          (kept.found.any fun old => old.ownedBy reservation) kept.found with
      | none =>
        rw [counted] at done
        obtain ⟨rfl, rfl⟩ := Prod.mk.inj done
        exact ⟨.same _, fun _ _ refused => nomatch refused⟩
      | some next =>
        rw [counted] at done
        obtain ⟨wrote, returned⟩ := keepAnswer_cases done
        have some_count : next.failures ≠ 0 := failed_failures counted ▸ counted_pos _ _
        refine ⟨?_, fun _ again ok => ?_⟩
        · rcases wrote with rfl | rfl | ⟨_, _, none_counted⟩
          · exact .same _
          · exact .failed _ _ _ _ _ _ change failing present counted
          · exact absurd none_counted some_count
        · obtain ⟨same, kept_it⟩ := returned _ ok some_count
          obtain rfl := Option.some.inj same
          exact ⟨kept_it, counted⟩
    · rw [if_neg failing] at done
      refine ⟨?_, fun fails => absurd fails failing⟩
      have succeeding : isFailure status = false := by simpa using failing
      rcases present with rfl | ⟨old, rfl⟩
      · obtain ⟨_, rfl⟩ := Prod.mk.inj done
        exact .same _
      · change (if old.failures = 0 ∧ (!old.ownedBy reservation) = true then _ else _) = _ at done
        split at done
        · obtain ⟨_, rfl⟩ := Prod.mk.inj done
          exact .same _
        · rcases (keepAnswer_cases done).1 with rfl | rfl | ⟨rfl, lapsed, _⟩
          · exact .same _
          · exact .reset _ _ _ _ old change succeeding
          · exact .removed _ _ _ _ old change succeeding lapsed

theorem answer_cases {status : Nat} {retryAfter : Option String} {now : Int} {reservation : Option String} {early : Kept}
    {sweep : Option Int} {files : Files} {result : Except Fault (Option Backoff)}
    (done : store.answer dates host status retryAfter now reservation early sweep files kept = (result, after)) :
    after = kept ∧ (∃ fault, result = .error fault) ∨
      after = kept ∧ isFailure status = false ∧ (∀ old, early.found = some old → old.reservation = none) ∨
      answerLocked dates store host status retryAfter now reservation files (kept.swept sweep) = (result, after) := by
  unfold Store.answer at done
  dsimp only at done
  by_cases failing : isFailure status = true
  · rw [if_pos failing] at done
    split at done
    · obtain ⟨rfl, rfl⟩ := Prod.mk.inj done
      exact Or.inl ⟨rfl, _, rfl⟩
    · obtain ⟨rfl, rfl⟩ := Prod.mk.inj done
      exact Or.inl ⟨rfl, _, rfl⟩
    · exact Or.inr (Or.inr done)
  · rw [if_neg failing] at done
    have succeeding : isFailure status = false := by simpa using failing
    split at done
    · obtain ⟨rfl, rfl⟩ := Prod.mk.inj done
      exact Or.inl ⟨rfl, _, rfl⟩
    · rename_i absent
      obtain ⟨rfl, rfl⟩ := Prod.mk.inj done
      refine Or.inr (Or.inl ⟨rfl, succeeding, ?_⟩)
      rw [← (read_found absent).1]
      rintro old found
      cases found
    · rename_i old present
      split at done
      · rename_i settled
        obtain ⟨rfl, rfl⟩ := Prod.mk.inj done
        refine Or.inr (Or.inl ⟨rfl, succeeding, ?_⟩)
        rw [← (read_found present).1]
        rintro again found
        exact Option.some.inj found ▸ settled.2
      · split at done
        · obtain ⟨rfl, rfl⟩ := Prod.mk.inj done
          exact Or.inl ⟨rfl, _, rfl⟩
        · obtain ⟨rfl, rfl⟩ := Prod.mk.inj done
          exact Or.inl ⟨rfl, _, rfl⟩
        · exact Or.inr (Or.inr done)

theorem answer_rewrites {status : Nat} {retryAfter reservation : Option String} {early : Kept}
    {result : Except Fault (Option Backoff)} (change : event.change = .answer status retryAfter reservation early)
    (done : store.answer dates host status retryAfter event.now reservation early event.sweep event.files kept =
      (result, after)) :
    ∃ between, event.Cleared kept between ∧ Rewrites dates store event between after ∧
      Returned dates store event status retryAfter reservation result between after := by
  rcases answer_cases done with ⟨rfl, fault, rfl⟩ | ⟨rfl, succeeding, _⟩ | locked
  · exact ⟨_, Or.inl rfl, .same _, fun _ next ok => nomatch ok⟩
  · refine ⟨_, Or.inl rfl, .same _, fun failing => ?_⟩
    rw [succeeding] at failing
    cases failing
  · exact ⟨_, Or.inr rfl, answerLocked_rewrites change locked⟩

theorem reserve_rewrites {read : Backoff} {id : String} {timeout : Nat} (change : event.change = .reserve read id timeout) :
    ∃ between, event.Cleared kept between ∧ Rewrites dates store event between
      (store.reserve host read id event.now timeout event.sweep event.files kept).2 := by
  unfold Store.reserve
  split
  · exact ⟨_, Or.inl rfl, .same _⟩
  · dsimp only
    refine ⟨_, Or.inr rfl, ?_⟩
    cases swept : kept.swept event.sweep with
    | absent => exact .same _
    | unreadable error => exact .same _
    | unread error => exact .same _
    | backoff current =>
      dsimp only [Kept.read]
      by_cases changed : current ≠ read
      · rw [if_pos changed]
        exact .same _
      · rw [if_neg changed]
        obtain rfl := not_not.mp changed
        cases reached : store.platform.checkedAdd event.now timeout with
        | none => exact .same _
        | some deadline =>
          let next : Backoff := { current with until_ := deadline, reservation := some ⟨id, current.failureEnd⟩ }
          change Rewrites dates store event (.backoff current) ((Kept.backoff current).written next event.files)
          rcases written_cases next (.backoff current) event.files with ⟨same, _⟩ | written
          · rw [same]
            exact .same _
          · rw [written]
            exact .reserved _ _ _ _ change reached

theorem release_rewrites {id : String} (change : event.change = .release id) :
    ∃ between, event.Cleared kept between ∧ Rewrites dates store event between
      (release host id event.now event.sweep event.files kept).2 := by
  unfold release
  split
  · exact ⟨_, Or.inl rfl, .same _⟩
  · exact ⟨_, Or.inl rfl, .same _⟩
  · exact ⟨_, Or.inl rfl, .same _⟩
  · dsimp only
    refine ⟨_, Or.inr rfl, ?_⟩
    cases swept : kept.swept event.sweep with
    | absent => exact .same _
    | unreadable error => exact .same _
    | unread error => exact .same _
    | backoff old =>
      dsimp only [Kept.read]
      cases owns : old.ownedBy (some id) with
      | false => exact .same _
      | true =>
        by_cases lapsed : old.settled.until_ ≤ event.now ∧ old.failures = 0
        · rw [if_neg (by simp), if_pos lapsed]
          change Rewrites dates store event (.backoff old) ((Kept.backoff old).removed event.files)
          rcases removed_cases (.backoff old) event.files with same | gone
          · rw [same]
            exact .same _
          · rw [gone]
            exact .freed _ _ change owns lapsed.1 lapsed.2
        · rw [if_neg (by simp), if_neg lapsed]
          change Rewrites dates store event (.backoff old) ((Kept.backoff old).written old.settled event.files)
          rcases written_cases old.settled (.backoff old) event.files with ⟨same, _⟩ | written
          · rw [same]
            exact .same _
          · rw [written]
            exact .released _ _ change owns

theorem step_rewrites :
    ∃ between, event.Cleared kept between ∧ Rewrites dates store event between (event.step dates store host kept) := by
  unfold Event.step
  cases change : event.change with
  | answer status retryAfter reservation early =>
    obtain ⟨between, cleared, rewrites, _⟩ := @answer_rewrites dates store host event kept _ status retryAfter reservation early _ change rfl
    exact ⟨between, cleared, rewrites⟩
  | reserve read id timeout => exact reserve_rewrites change
  | release id => exact release_rewrites change
  | turn => exact ⟨_, Or.inr rfl, .same _⟩

/-! ### What a rewrite keeps -/

@[simp] theorem failureEnd_settled (old : Backoff) : old.settled.failureEnd = old.failureEnd := rfl

@[simp] theorem failureEnd_reset (old : Backoff) (owns : Bool) : (old.reset owns).failureEnd = old.failureEnd := by
  cases owns <;> rfl

theorem over_cases (next old : Backoff) (owns : Bool) :
    next.upon owns (some old) = next.later old ∧ (owns = true ∨ old.reservation = none) ∨
      ∃ held, owns = false ∧ old.reservation = some held ∧ next.upon owns (some old) =
        { next.later old with
          until_ := max (next.later old).until_ old.until_
          reservation := some { held with failureUntil := (next.later old).until_ } } := by
  unfold Backoff.upon
  dsimp only
  cases owns with
  | true => exact Or.inl ⟨rfl, Or.inl rfl⟩
  | false =>
    cases reserved : old.reservation with
    | none => exact Or.inl ⟨rfl, Or.inr rfl⟩
    | some held => exact Or.inr ⟨held, rfl, rfl, rfl⟩

theorem failureEnd_fresh {backoff : Backoff} (fresh : backoff.reservation = none) : backoff.failureEnd = backoff.until_ := by
  unfold Backoff.failureEnd
  rw [fresh]
  rfl

theorem over_failureEnd {next : Backoff} (fresh : next.reservation = none) (owns : Bool) (old : Backoff) :
    (next.upon owns (some old)).failureEnd = max next.until_ old.failureEnd := by
  rw [← later_until]
  rcases over_cases next old owns with ⟨lapsed, _⟩ | ⟨held, _, _, lapsed⟩
  · rw [lapsed]
    exact failureEnd_fresh ((later_reservation next old).trans fresh)
  · rw [lapsed]
    rfl

theorem over_ordered {next : Backoff} (fresh : next.reservation = none) (owns : Bool) (old : Backoff) :
    (next.upon owns (some old)).Ordered := by
  unfold Backoff.Ordered
  rcases over_cases next old owns with ⟨lapsed, _⟩ | ⟨held, _, _, lapsed⟩
  · rw [lapsed]
    exact (failureEnd_fresh ((later_reservation next old).trans fresh)).le
  · rw [lapsed]
    exact le_max_left _ _

theorem over_reservation {next old : Backoff} {held : Reservation} (reserved : old.reservation = some held) :
    (next.upon false (some old)).reservation.map Reservation.id = some held.id ∧
      old.until_ ≤ (next.upon false (some old)).until_ := by
  unfold Backoff.upon
  dsimp only
  rw [reserved]
  exact ⟨rfl, le_max_right _ _⟩

theorem failed_over {latest : Int} {status : Nat} {retryAfter : Option String} {now : Int} {owns : Bool}
    {previous : Option Backoff} {next : Backoff} (done : failed dates latest status retryAfter now owns previous = some next) :
    ∃ own : Backoff, answerEnd dates latest status retryAfter now (countedFailures now previous) = some own.until_ ∧
      own.reservation = none ∧ next = own.upon owns previous := by
  obtain ⟨wait, waits, rfl⟩ := Option.map_eq_some_iff.mp done
  exact ⟨_, waits, rfl, rfl⟩

theorem answerEnd_now {latest : Int} {status : Nat} {retryAfter : Option String} {now : Int} {failures : Nat} {end_ : Int}
    (ends : answerEnd dates latest status retryAfter now failures = some end_) : now ≤ end_ := by
  unfold answerEnd at ends
  split at ends
  · obtain rfl := Option.some.inj ends
    exact le_max_right _ _
  · dsimp only at ends
    split at ends
    · obtain rfl := Option.some.inj ends
      exact le_max_right _ _
    · cases ends

def Event.Timely (dates : Dates) (event : Event) : Prop :=
  ∀ status retryAfter reservation early date, event.change = .answer status (some retryAfter) reservation early →
    retryAfterDate dates retryAfter = some date → date < event.now + seconds 3600 + millisecond →
      date ≤ event.now + seconds 3600

theorem trim_trim (value : String) : trim (trim value) = trim value := by
  unfold trim
  rw [String.toList_ofList]
  exact congrArg String.ofList (shorn_twice isWhitespace value.toList)

theorem suppliedDate_hour {status : Nat} {retryAfter : Option String} {now date : Int}
    (dated : suppliedDate dates status retryAfter now = some date) :
    ∃ value, retryAfter = some value ∧ retryAfterDate dates value = some date ∧
      date < now + seconds 3600 + millisecond := by
  unfold suppliedDate at dated
  split at dated
  · rename_i capped
    obtain ⟨value, rfl, named⟩ := Option.bind_eq_some_iff.mp dated
    refine ⟨value, rfl, named, ?_⟩
    obtain ⟨wait, supplies, short⟩ := (Option.any_eq_true _ _).mp capped
    unfold supplied at supplies
    split at supplies
    · change retryAfterSeconds dates value now = some wait at supplies
      unfold retryAfterSeconds at supplies
      dsimp only at supplies
      split at supplies
      · rename_i digits
        unfold retryAfterDate at named
        rw [dates.digits _ digits.2] at named
        cases named
      · unfold retryAfterDate at supplies named
        rw [trim_trim, named] at supplies
        obtain rfl := Option.some.inj supplies
        have capped : ((date - now).toNat / millisecond + 999) / 1000 ≤ 3600 := of_decide_eq_true short
        unfold seconds millisecond at *
        omega
    · cases supplies
  · cases dated

theorem answerEnd_hour {status : Nat} {retryAfter reservation : Option String} {early : Kept} {failures : Nat} {end_ : Int}
    (timely : event.Timely dates) (change : event.change = .answer status retryAfter reservation early)
    {latest : Int} (ends : answerEnd dates latest status retryAfter event.now failures = some end_) :
    end_ ≤ event.now + seconds 3600 := by
  unfold answerEnd at ends
  cases dated : suppliedDate dates status retryAfter event.now with
  | none =>
    rw [dated] at ends
    dsimp only at ends
    split at ends
    · obtain rfl := Option.some.inj ends
      unfold RETRY_AFTER_CAP seconds
      omega
    · cases ends
  | some date =>
    rw [dated] at ends
    obtain rfl := Option.some.inj ends
    obtain ⟨value, rfl, named, short⟩ := suppliedDate_hour dated
    have within := timely status value reservation early date change named short
    unfold seconds at *
    omega

theorem rewrites_forward (rewrites : Rewrites dates store event kept after) {old next : Backoff}
    (before : kept = .backoff old) (written : after = .backoff next) : old.failureEnd ≤ next.failureEnd := by
  cases rewrites with
  | same =>
    obtain rfl := Kept.backoff.inj (before.symm.trans written)
    exact le_refl _
  | failed status retryAfter reservation early _ _ _ _ _ counted =>
    subst before
    obtain rfl := Kept.backoff.inj written
    obtain ⟨own, _, fresh, rfl⟩ := failed_over counted
    change _ ≤ (own.upon _ (some old)).failureEnd
    rw [over_failureEnd fresh]
    exact le_max_right _ _
  | reset =>
    obtain rfl := Kept.backoff.inj before
    obtain rfl := Kept.backoff.inj written
    exact (failureEnd_reset _ _).ge
  | removed => cases written
  | reserved =>
    obtain rfl := Kept.backoff.inj before
    obtain rfl := Kept.backoff.inj written
    exact le_refl _
  | released =>
    obtain rfl := Kept.backoff.inj before
    obtain rfl := Kept.backoff.inj written
    exact le_refl _
  | freed => cases written

theorem rewrites_ordered (ready : event.Ready) (rewrites : Rewrites dates store event kept after)
    (ordered : ∀ old, kept = .backoff old → old.Ordered) {next : Backoff} (written : after = .backoff next) :
    next.Ordered := by
  cases rewrites with
  | same => exact ordered next written
  | failed _ _ _ _ _ _ _ _ present counted =>
    obtain rfl := Kept.backoff.inj written
    obtain ⟨own, _, fresh, rfl⟩ := failed_over counted
    rcases present with rfl | ⟨old, rfl⟩
    · exact (failureEnd_fresh fresh).le
    · exact over_ordered fresh _ old
  | reset _ _ reservation _ old =>
    obtain rfl := Kept.backoff.inj written
    have before := ordered old rfl
    unfold Backoff.reset
    split
    · exact le_refl _
    · exact before
  | removed => cases written
  | reserved read id timeout deadline change reached =>
    obtain rfl := Kept.backoff.inj written
    have before := ordered read rfl
    have passed := ready read id timeout change
    obtain rfl := checkedAdd_some reached
    unfold Backoff.Ordered at *
    change read.failureEnd ≤ event.now + timeout
    omega
  | released id old =>
    obtain rfl := Kept.backoff.inj written
    exact le_refl _
  | freed => cases written

theorem rewrites_removed (rewrites : Rewrites dates store event kept after) {old : Backoff} (ordered : old.Ordered)
    (before : kept = .backoff old) (removed : after = .absent) :
    old.failureEnd ≤ event.now ∧ (old.failures = 0 ∨ event.Succeeds) := by
  cases rewrites with
  | same => exact absurd (before.symm.trans removed) (by simp)
  | failed => cases removed
  | reset => cases removed
  | removed status retryAfter reservation early old change succeeds lapsed =>
    obtain rfl := Kept.backoff.inj before
    refine ⟨?_, Or.inr ⟨_, _, _, _, change, succeeds⟩⟩
    unfold Backoff.reset at lapsed
    split at lapsed
    · exact lapsed
    · exact le_trans ordered lapsed
  | reserved => cases removed
  | released => cases removed
  | freed id old _ _ lapsed none_counted =>
    obtain rfl := Kept.backoff.inj before
    exact ⟨lapsed, Or.inl none_counted⟩

theorem counted_cases (now : Int) (old : Backoff) :
    countedFailures now (some old) ≤ old.failures ∨
      countedFailures now (some old) = old.failures + 1 ∧ (old.failureEnd ≤ now ∨ old.failures = 0) := by
  unfold countedFailures
  dsimp only
  split
  · rename_i elapsed
    by_cases full : old.failures + 1 ≤ 2 ^ 32 - 1
    · exact Or.inr ⟨Nat.min_eq_left full, elapsed⟩
    · exact Or.inl (by omega)
  · exact Or.inl (le_refl _)

theorem reset_failures (old : Backoff) (owns : Bool) : (old.reset owns).failures = 0 := by
  cases owns <;> rfl

theorem rewrites_counted (rewrites : Rewrites dates store event kept after) {old next : Backoff}
    (before : kept = .backoff old) (written : after = .backoff next) (rises : old.failures < next.failures) :
    next.failures = old.failures + 1 ∧ event.Fails ∧ (old.failureEnd ≤ event.now ∨ old.failures = 0) := by
  cases rewrites with
  | same =>
    obtain rfl := Kept.backoff.inj (before.symm.trans written)
    exact absurd rises (lt_irrefl _)
  | failed status retryAfter reservation early _ wrote change failing _ counted =>
    subst before
    obtain rfl : next = wrote := (Kept.backoff.inj written).symm
    have count := failed_failures counted
    rcases counted_cases event.now old with kept | ⟨one_more, elapsed⟩
    · exact absurd (count ▸ kept : next.failures ≤ old.failures) (not_le.mpr rises)
    · exact ⟨count.trans one_more, ⟨_, _, _, _, change, failing⟩, elapsed⟩
  | reset _ _ _ _ found =>
    obtain rfl := Kept.backoff.inj before
    obtain rfl := Kept.backoff.inj written
    rw [reset_failures] at rises
    omega
  | removed => cases written
  | reserved =>
    obtain rfl := Kept.backoff.inj before
    obtain rfl := Kept.backoff.inj written
    exact absurd rises (lt_irrefl _)
  | released =>
    obtain rfl := Kept.backoff.inj before
    obtain rfl := Kept.backoff.inj written
    exact absurd rises (lt_irrefl _)
  | freed => cases written

theorem ownedBy_other {old : Backoff} {held : Reservation} (reserved : old.reservation = some held)
    {reservation : Option String} (other : reservation ≠ some held.id) : old.ownedBy reservation = false := by
  unfold Backoff.ownedBy
  rw [reserved]
  exact decide_eq_false fun same => other same.symm

theorem rewrites_holder (rewrites : Rewrites dates store event kept after) {old : Backoff} {held : Reservation}
    (before : kept = .backoff old) (reserved : old.reservation = some held) (foreign : event.Foreign held.id) :
    (∃ next, after = .backoff next ∧ next.reservation.map Reservation.id = some held.id ∧ old.until_ ≤ next.until_) ∨
      after = .absent ∧ old.until_ ≤ event.now := by
  have answers {status : Nat} {retryAfter reservation : Option String} {early : Kept}
      (change : event.change = .answer status retryAfter reservation early) : old.ownedBy reservation = false := by
    rcases foreign with ⟨_, _, _, _, other, apart⟩ | ⟨_, other, _⟩
    · obtain ⟨_, _, rfl, _⟩ := Change.answer.inj (change.symm.trans other)
      exact ownedBy_other reserved apart
    · cases change.symm.trans other
  have releases {id : String} (change : event.change = .release id) : old.ownedBy (some id) = false := by
    rcases foreign with ⟨_, _, _, _, other, _⟩ | ⟨_, other, apart⟩
    · cases change.symm.trans other
    · obtain rfl := Change.release.inj (change.symm.trans other)
      exact ownedBy_other reserved fun same => apart (Option.some.inj same)
  cases rewrites with
  | same => exact Or.inl ⟨old, before, congrArg (Option.map Reservation.id) reserved, le_refl _⟩
  | failed status retryAfter reservation early _ next change _ _ counted =>
    subst before
    obtain ⟨own, _, _, rfl⟩ := failed_over counted
    have apart : (Kept.backoff old).found.any (fun old => old.ownedBy reservation) = false := answers change
    rw [apart]
    exact Or.inl ⟨_, rfl, over_reservation reserved⟩
  | reset status retryAfter reservation early found change =>
    obtain rfl : old = found := (Kept.backoff.inj before).symm
    rw [answers change]
    refine Or.inl ⟨_, rfl, ?_, le_refl _⟩
    exact congrArg (Option.map Reservation.id) reserved
  | removed status retryAfter reservation early _ change _ lapsed =>
    obtain rfl := Kept.backoff.inj before
    rw [answers change] at lapsed
    exact Or.inr ⟨rfl, lapsed⟩
  | reserved read id timeout deadline change =>
    rcases foreign with ⟨_, _, _, _, other, _⟩ | ⟨_, other, _⟩
    · cases change.symm.trans other
    · cases change.symm.trans other
  | released id _ change owns =>
    obtain rfl := Kept.backoff.inj before
    rw [releases change] at owns
    cases owns
  | freed id _ change owns =>
    obtain rfl := Kept.backoff.inj before
    rw [releases change] at owns
    cases owns

theorem rewrites_end (rewrites : Rewrites dates store event kept after) {next : Backoff} (written : after = .backoff next) :
    (∃ old, kept = .backoff old ∧ next.failureEnd ≤ old.failureEnd) ∨
      event.Fails ∧ (event.Timely dates → next.failureEnd ≤ event.now + seconds 3600) := by
  cases rewrites with
  | same => exact Or.inl ⟨next, written, le_refl _⟩
  | failed status retryAfter reservation early _ _ change failing present counted =>
    obtain rfl := Kept.backoff.inj written
    obtain ⟨own, ends, fresh, rfl⟩ := failed_over counted
    rcases present with rfl | ⟨old, rfl⟩
    · refine Or.inr ⟨⟨_, _, _, _, change, failing⟩, fun timely => ?_⟩
      exact (failureEnd_fresh fresh).le.trans (answerEnd_hour timely change ends)
    · have later := over_failureEnd fresh
        ((Kept.backoff old).found.any fun old => old.ownedBy reservation) old
      rcases le_total own.until_ old.failureEnd with shorter | longer
      · exact Or.inl ⟨old, rfl, (later.trans (max_eq_right shorter)).le⟩
      · refine Or.inr ⟨⟨_, _, _, _, change, failing⟩, fun timely => ?_⟩
        exact (later.trans (max_eq_left longer)).le.trans (answerEnd_hour timely change ends)
  | reset _ _ _ _ old =>
    obtain rfl := Kept.backoff.inj written
    exact Or.inl ⟨old, rfl, (failureEnd_reset _ _).le⟩
  | removed => cases written
  | reserved read =>
    obtain rfl := Kept.backoff.inj written
    exact Or.inl ⟨read, rfl, le_refl _⟩
  | released id old =>
    obtain rfl := Kept.backoff.inj written
    exact Or.inl ⟨old, rfl, le_refl _⟩
  | freed => cases written

end

end CommonMeasure.CrawlDelay
