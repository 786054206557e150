import CommonMeasure.CrawlDelay.Failures
import CommonMeasure.CrawlDelay.Sends

namespace CommonMeasure.CrawlDelay

def Kept.holds (kept : Kept) (id : String) : Bool := kept.found.any fun old => old.ownedBy (some id)

def Kept.Stands (kept : Kept) (holding : Holding) : Prop :=
  ∃ found, kept = .backoff found ∧ found.reservation.map Reservation.id = some holding.id ∧ holding.deadline ≤ found.until_

section

variable {dates : Dates} {store : Store} {host : String} {event : Event} {kept after : Kept} {id : String}
  {holding : Holding} {clock : Int}

theorem ownedBy_iff {backoff : Backoff} :
    backoff.ownedBy (some id) = true ↔ backoff.reservation.map Reservation.id = some id := by
  unfold Backoff.ownedBy
  cases backoff.reservation with
  | none => simp
  | some held => simp

theorem Kept.Stands.same {other : Holding} (stands : kept.Stands holding) (too : kept.Stands other) :
    holding.id = other.id := by
  obtain ⟨found, rfl, named, _⟩ := stands
  obtain ⟨again, same, others, _⟩ := too
  obtain rfl := Kept.backoff.inj same
  exact Option.some.inj (named.symm.trans others)

theorem holds_swept (sweep : Option Int) (holds : (kept.swept sweep).holds id = true) : kept.holds id = true := by
  rcases swept_cases kept sweep with same | ⟨gone, _⟩
  · rwa [same] at holds
  · rw [gone] at holds
    cases holds

theorem swept_stands {sweep : Option Int} (early : ∀ instant ∈ sweep, instant ≤ clock)
    (unexpired : clock < holding.deadline) (stands : kept.Stands holding) : kept.swept sweep = kept := by
  rcases swept_cases kept sweep with same | ⟨_, old, found, _, passed⟩
  · exact same
  · obtain ⟨again, same, _, later⟩ := stands
    obtain rfl := Kept.backoff.inj (found.symm.trans same)
    obtain ⟨instant, listed, lapsed⟩ := (Option.any_eq_true _ _).mp passed
    have before := early instant listed
    have lapsed : old.until_ ≤ instant := of_decide_eq_true lapsed
    omega

theorem step_stands (foreign : event.Foreign holding.id) (now : event.now ≤ clock)
    (early : ∀ instant ∈ event.sweep, instant ≤ clock) (unexpired : clock < holding.deadline)
    (stands : kept.Stands holding) : (event.step dates store host kept).Stands holding := by
  obtain ⟨old, before, named, deadline⟩ := stands
  obtain ⟨held, reserved, same⟩ := Option.map_eq_some_iff.mp named
  rw [← same] at foreign
  rcases @step_holder dates store host event kept old held before reserved foreign with ⟨next, after, still, later⟩ | lapsed
  · exact ⟨next, after, still.trans (congrArg some same), deadline.trans later⟩
  · rcases lapsed with lapsed | swept
    · omega
    · obtain ⟨instant, listed, lapsed⟩ := (Option.any_eq_true _ _).mp swept
      have before := early instant listed
      have lapsed : old.until_ ≤ instant := of_decide_eq_true lapsed
      omega

theorem over_ownedBy {next old : Backoff} {owns : Bool} (fresh : next.reservation = none)
    (named : (next.upon owns (some old)).ownedBy (some id) = true) : owns = false ∧ old.ownedBy (some id) = true := by
  rcases over_cases next old owns with ⟨lapsed, _⟩ | ⟨held, others, reserved, lapsed⟩
  · rw [lapsed] at named
    unfold Backoff.ownedBy at named
    rw [later_reservation, fresh] at named
    cases named
  · rw [lapsed] at named
    refine ⟨others, ?_⟩
    unfold Backoff.ownedBy
    rw [reserved]
    exact named

theorem reset_ownedBy {old : Backoff} {owns : Bool} (named : (old.reset owns).ownedBy (some id) = true) :
    owns = false ∧ old.ownedBy (some id) = true := by
  cases owns with
  | false => exact ⟨rfl, named⟩
  | true => cases named

theorem rewrites_holds (rewrites : Rewrites dates store event kept after) (holds : after.holds id = true) :
    kept.holds id = true ∨ ∃ read timeout, event.change = .reserve read id timeout := by
  cases rewrites with
  | same => exact Or.inl holds
  | failed _ _ _ _ _ next _ _ present counted =>
    obtain ⟨own, _, fresh, rfl⟩ := failed_over counted
    rcases present with rfl | ⟨old, rfl⟩
    · change own.ownedBy (some id) = true at holds
      unfold Backoff.ownedBy at holds
      rw [fresh] at holds
      cases holds
    · exact Or.inl (over_ownedBy fresh holds).2
  | reset => exact Or.inl (reset_ownedBy holds).2
  | removed => cases holds
  | reserved read other timeout deadline change =>
    have same : other = id := by simpa [Kept.holds, Kept.found, Backoff.ownedBy] using holds
    exact Or.inr ⟨read, timeout, same ▸ change⟩
  | released => cases holds
  | freed => cases holds

theorem step_holds (holds : (event.step dates store host kept).holds id = true) :
    kept.holds id = true ∨ ∃ read timeout, event.change = .reserve read id timeout := by
  obtain ⟨between, cleared, rewrites⟩ := @step_rewrites dates store host event kept
  rcases rewrites_holds rewrites holds with before | takes
  · rcases cleared with rfl | rfl
    · exact Or.inl before
    · exact Or.inl (holds_swept _ before)
  · exact Or.inr takes

theorem keepAnswer_ok {next : Backoff} {now : Int} {files : Files} {answer : Option Backoff}
    (done : keepAnswer host next now files kept = (.ok answer, after)) : after = .backoff next ∨ after = .absent := by
  unfold keepAnswer writeBackoff Kept.removed at done
  cases error : files.error with
  | some reason =>
    rw [error] at done
    split at done
    · cases done
    · cases done
  | none =>
    rw [error] at done
    split at done
    · exact Or.inr (Prod.mk.inj done).2.symm
    · left
      obtain ⟨_, rfl⟩ := Prod.mk.inj done
      cases files with
      | write error renamed => cases error
      | _ => rfl

theorem answerLocked_settles {status : Nat} {retryAfter : Option String} {now : Int} {files : Files}
    {answer : Option Backoff}
    (done : answerLocked dates store host status retryAfter now (some id) files kept = (.ok answer, after)) :
    after.holds id = false := by
  unfold answerLocked at done
  cases read : kept.read host with
  | error reason =>
    rw [read] at done
    cases done
  | ok previous =>
    obtain ⟨rfl, present⟩ := read_found read
    rw [read] at done
    dsimp only at done
    split at done
    · cases counted : failed dates store.platform.latest status retryAfter now
          (kept.found.any fun old => old.ownedBy (some id)) kept.found with
      | none =>
        rw [counted] at done
        cases done
      | some next =>
        rw [counted] at done
        obtain ⟨own, _, fresh, rfl⟩ := failed_over counted
        rcases keepAnswer_ok done with rfl | rfl
        · apply Bool.eq_false_iff.mpr
          intro named
          rcases present with rfl | ⟨old, rfl⟩
          · change own.ownedBy (some id) = true at named
            unfold Backoff.ownedBy at named
            rw [fresh] at named
            cases named
          · obtain ⟨others, owns⟩ := over_ownedBy fresh named
            exact absurd owns (Bool.eq_false_iff.mp others)
        · rfl
    · rcases present with rfl | ⟨old, rfl⟩
      · obtain ⟨_, rfl⟩ := Prod.mk.inj done
        rfl
      · change (if old.failures = 0 ∧ (!old.ownedBy (some id)) = true then _ else _) = _ at done
        split at done
        · rename_i others
          obtain ⟨_, rfl⟩ := Prod.mk.inj done
          exact Bool.not_eq_true' _ |>.mp others.2
        · rcases keepAnswer_ok done with rfl | rfl
          · apply Bool.eq_false_iff.mpr
            intro named
            obtain ⟨others, owns⟩ := reset_ownedBy named
            exact absurd owns (Bool.eq_false_iff.mp others)
          · rfl

theorem answer_settles {status : Nat} {retryAfter : Option String} {now : Int} {early : Kept} {sweep : Option Int}
    {files : Files} {answer : Option Backoff} (read : early.holds id = false → kept.holds id = false)
    (done : store.answer dates host status retryAfter now (some id) early sweep files kept = (.ok answer, after)) :
    after.holds id = false := by
  rcases answer_cases done with ⟨_, fault, refused⟩ | ⟨rfl, _, unreserved⟩ | locked
  · cases refused
  · apply read
    unfold Kept.holds Backoff.ownedBy
    cases found : early.found with
    | none => rfl
    | some old =>
      change old.reservation.any _ = false
      rw [unreserved old found]
      rfl
  · exact answerLocked_settles locked

theorem answer_error {status : Nat} {retryAfter : Option String} {now : Int} {reservation : Option String} {early : Kept}
    {sweep : Option Int} {files : Files} {fault : Fault} (succeeds : isFailure status = false)
    (whole : ∀ error, files ≠ .write error true)
    (done : store.answer dates host status retryAfter now reservation early sweep files kept = (.error fault, after)) :
    after = kept ∨ after = kept.swept sweep := by
  rcases answer_cases done with ⟨same, _⟩ | ⟨same, _⟩ | locked
  · exact Or.inl same
  · exact Or.inl same
  · right
    unfold answerLocked at locked
    rw [succeeds] at locked
    split at locked
    · exact (Prod.mk.inj locked).2.symm
    · dsimp only at locked
      rw [if_neg (by simp)] at locked
      split at locked
      · cases locked
      · split at locked
        · cases locked
        · unfold keepAnswer writeBackoff Kept.removed at locked
          cases error : files.error with
          | none =>
            rw [error] at locked
            split at locked
            · cases locked
            · cases locked
          | some reason =>
            rw [error] at locked
            cases files with
            | write wrote renamed =>
              cases renamed with
              | true => exact absurd rfl (whole wrote)
              | false =>
                split at locked
                · exact (Prod.mk.inj locked).2.symm
                · exact (Prod.mk.inj locked).2.symm
            | _ => cases error

theorem release_settles {now : Int} {sweep : Option Int} {files : Files}
    (done : release host id now sweep files kept = (.ok (), after)) : after.holds id = false := by
  unfold release at done
  split at done
  · cases done
  · cases done
  · cases done
  · dsimp only at done
    split at done
    · cases done
    · rename_i absent
      obtain ⟨_, rfl⟩ := Prod.mk.inj done
      unfold Kept.holds
      rw [← (read_found absent).1]
      rfl
    · rename_i old present
      split at done
      · rename_i others
        obtain ⟨_, rfl⟩ := Prod.mk.inj done
        unfold Kept.holds
        rw [← (read_found present).1]
        exact Bool.not_eq_true' _ |>.mp others
      · split at done
        · unfold Kept.removed at done
          cases error : files.error with
          | some reason =>
            rw [error] at done
            cases done
          | none =>
            rw [error] at done
            obtain ⟨_, rfl⟩ := Prod.mk.inj done
            rfl
        · cases files with
          | write error renamed => cases done
          | _ =>
            obtain ⟨_, rfl⟩ := Prod.mk.inj done
            rfl

theorem reserve_cases {read : Backoff} {now : Int} {timeout : Nat} {sweep : Option Int} {files : Files}
    {result : Except Fault Reserve} (done : store.reserve host read id now timeout sweep files kept = (result, after)) :
    (after = kept ∨ after = kept.swept sweep) ∧ result ≠ .ok .reserved ∨
      kept.swept sweep = .backoff read ∧ (after = .backoff read ∨ after = .backoff
        { read with until_ := now + timeout, reservation := some ⟨id, read.failureEnd⟩ }) ∧
        (result = .ok .reserved → after = .backoff
          { read with until_ := now + timeout, reservation := some ⟨id, read.failureEnd⟩ }) ∧
        result ≠ .ok .free ∧ result ≠ .ok .changed := by
  unfold Store.reserve at done
  split at done
  · obtain ⟨rfl, rfl⟩ := Prod.mk.inj done
    exact Or.inl ⟨Or.inl rfl, by simp⟩
  · dsimp only at done
    split at done
    · obtain ⟨rfl, rfl⟩ := Prod.mk.inj done
      exact Or.inl ⟨Or.inr rfl, by simp⟩
    · obtain ⟨rfl, rfl⟩ := Prod.mk.inj done
      exact Or.inl ⟨Or.inr rfl, by simp⟩
    · rename_i current present
      split at done
      · obtain ⟨rfl, rfl⟩ := Prod.mk.inj done
        exact Or.inl ⟨Or.inr rfl, by simp⟩
      · rename_i unchanged
        obtain rfl := not_not.mp unchanged
        have swept : kept.swept sweep = .backoff current := by
          obtain ⟨found, absent | ⟨old, same⟩⟩ := read_found present
          · rw [absent] at found
            cases found
          · rw [same] at found ⊢
            exact congrArg Kept.backoff (Option.some.inj found).symm
        cases reached : store.platform.checkedAdd now timeout with
        | none =>
          rw [reached] at done
          obtain ⟨rfl, rfl⟩ := Prod.mk.inj done
          exact Or.inl ⟨Or.inr rfl, by simp⟩
        | some deadline =>
          rw [reached] at done
          obtain rfl := checkedAdd_some reached
          refine Or.inr ⟨swept, ?_⟩
          rw [swept] at done
          obtain ⟨rfl, rfl⟩ := Prod.mk.inj done
          unfold writeBackoff
          have refused (error : String) : ∀ outcome, Except.map (fun _ : Unit => Reserve.reserved)
              (.error (Fault.directory ("the back-off for " ++ host ++ " could not be kept: " ++ error))) ≠
                .ok outcome := fun _ ok => nomatch ok
          have taken : Except.map (fun _ : Unit => Reserve.reserved) (.ok () : Except Fault Unit) ≠ .ok .free ∧
              Except.map (fun _ : Unit => Reserve.reserved) (.ok () : Except Fault Unit) ≠ .ok .changed :=
            ⟨(nomatch ·), (nomatch ·)⟩
          cases files with
          | write error renamed =>
            cases renamed with
            | true => exact ⟨Or.inr rfl, fun taken => absurd taken (refused error _), refused error _, refused error _⟩
            | false => exact ⟨Or.inl rfl, fun taken => absurd taken (refused error _), refused error _, refused error _⟩
          | _ => exact ⟨Or.inr rfl, fun _ => rfl, taken⟩

end

end CommonMeasure.CrawlDelay
