import CommonMeasure.Supply.Fetch

namespace CommonMeasure.Supply

open Json

variable {U : Urls} {home : String} {w : Occasion} {store : ReleasedStore}

theorem ask_sent (w : Occasion) (retried_after : Option String) (n : Nat) :
    (ask w retried_after n).sent ≤ 1 + retried_after.isNone.toNat := by
  fun_induction ask w retried_after n with
  | case1 => exact Nat.zero_le _
  | case2 => exact Nat.le_add_right _ _
  | case3 => exact Nat.le_add_right _ _
  | case4 retried_after n _ _ _ code _ first again ih =>
    have one : retried_after.isNone.toNat = 1 := by rw [first.1, Bool.toNat_true]
    have twice : again.sent ≤ 1 := ih
    show again.sent + 1 ≤ _
    omega
  | case5 => exact Nat.le_add_right _ _

theorem ask_answered {retried_after : Option String} {n : Nat} {response : Response}
    (is : (ask w retried_after n).ended = .answered response) :
    (ask w retried_after n).answers.getLast? = some response ∧ faultOf response = none := by
  fun_induction ask w retried_after n with
  | case1 => cases is
  | case2 => cases is
  | case3 _ _ _ _ _ sound =>
    cases is
    exact ⟨rfl, sound⟩
  | case4 _ n _ response' _ code _ first again ih =>
    obtain ⟨last, sound⟩ := ih is
    refine ⟨?_, sound⟩
    show (response' :: again.answers).getLast? = some response
    rw [List.getLast?_cons, last, Option.getD_some]
  | case5 => cases is

def Rules (enrolment : Enrolment) (response : Response) : Prop :=
  (response.status = 401 ∧ fault_code response.body = none) ∨
    (response.status = 200 ∧ ∃ document, ReleaseDocument.from_slice response.body = some document ∧
      document.key_id = enrolment.key_id ∧ document.organisation = enrolment.organization)

/-- The fetch was answered last with a release addressed to this edge, and the store holds what of it may be held. -/
structure Confirms (w : Occasion) (store : ReleasedStore) (done : Done) (response : Response)
    (document : ReleaseDocument) : Prop where
  outcome : done.fetch.outcome = .accepted ∨ done.fetch.outcome = .unchanged
  enrolled : ∃ enrolment, w.enrolment = .ok (some enrolment) ∧ document.key_id = enrolment.key_id ∧
    document.organisation = enrolment.organization
  answered : done.answers.getLast? = some response
  served : response.status = 200
  read : ReleaseDocument.from_slice response.body = some document
  store_ : done.store =
    { store with released := (holdServed w.now [] document.credentials).1, confirmed := some w.confirmed }

/-- What a fetch does: it keeps the store, clears it, or holds what a document addressed to this edge releases. -/
inductive Does (w : Occasion) (store : ReleasedStore) (done : Done) : Prop
  | kept : done.store = store → done.fetch.outcome = .unreachable → Does w store done
  | cleared : done.store = (store.clear w.checked w.confirmed).1 → done.fetch.outcome = .refused →
      (w.identity = .ok .signing → ∃ enrolment response, w.enrolment = .ok (some enrolment) ∧
        done.answers.getLast? = some response ∧ Rules enrolment response) → Does w store done
  | confirmed {response document} : Confirms w store done response document → Does w store done

theorem rule_does {enrolment : Enrolment} {fetch : Fetch} {asked : Asked} (enrolled : w.enrolment = .ok (some enrolment))
    (open_ : fetch.outcome = .unreachable)
    (last : ∀ response, asked.ended = .answered response →
      asked.answers.getLast? = some response ∧ faultOf response = none) :
    Does w store (conclude w (rule enrolment w store fetch asked.ended) asked.sent asked.answers) := by
  cases is : asked.ended with
  | stopped status reason => exact .kept rfl open_
  | answered response =>
    obtain ⟨received, sound⟩ := last response is
    unfold rule
    dsimp only
    split
    · rename_i served
      split
      · exact .kept rfl open_
      · rename_i document read
        split
        · exact .kept rfl open_
        · rename_i addressed
          rw [not_or, not_not, not_not] at addressed
          refine @Does.confirmed _ _ _ response document
            ⟨?_, ⟨enrolment, enrolled, addressed.1, addressed.2⟩, received, served, read, rfl⟩
          show (if _ then Outcome.accepted else .unchanged) = _ ∨ (if _ then Outcome.accepted else .unchanged) = _
          split
          · exact Or.inl rfl
          · exact Or.inr rfl
    · split
      · rename_i unauthorised
        refine .cleared rfl rfl fun _ => ⟨enrolment, response, enrolled, received, Or.inl ⟨unauthorised, ?_⟩⟩
        simpa [faultOf, unauthorised] using sound
      · exact .kept rfl open_

theorem fetch_does {done : Done} (is : fetch_with_clock U home w store = .ok done) :
    Does w store done ∧ done.sent ≤ 2 := by
  unfold fetch_with_clock at is
  cases enrolled : w.enrolment with
  | error => simp [enrolled, bind, Except.bind] at is
  | ok known =>
    cases known with
    | none => simp [enrolled, bind, Except.bind] at is
    | some enrolment =>
      simp only [enrolled, bind, Except.bind] at is
      split at is
      · cases is
      split at is
      · cases is
      split at is
      case h_2 => cases is
      split at is
      · cases is
      split at is
      · cases is
      rename_i identity identified
      cases identity with
      | unsigned reason =>
        cases is
        exact ⟨.cleared rfl rfl (by simp [identified]), Nat.zero_le _⟩
      | signing =>
        dsimp only at is
        split at is
        · cases is
          exact ⟨rule_does enrolled rfl fun response answered => ask_answered answered, ask_sent w none 0⟩
        · cases is
          exact ⟨.kept rfl rfl, Nat.zero_le _⟩

theorem Does.kept_of_silent {done : Done} {enrolment : Enrolment} (does : Does w store done)
    (enrolled : w.enrolment = .ok (some enrolment)) (signing : w.identity = .ok .signing)
    (silent : ∀ response ∈ done.answers, ¬Rules enrolment response) :
    done.store = store ∧ done.fetch.outcome = .unreachable := by
  cases does with
  | kept same outcome => exact ⟨same, outcome⟩
  | cleared _ _ ruled =>
    obtain ⟨enrolment', response, enrolled', last, rules⟩ := ruled signing
    cases enrolled.symm.trans enrolled'
    exact absurd rules (silent response (List.mem_of_getLast? last))
  | confirmed confirms =>
    obtain ⟨enrolment', enrolled', key, organisation⟩ := confirms.enrolled
    cases enrolled.symm.trans enrolled'
    exact absurd (Or.inr ⟨confirms.served, _, confirms.read, key, organisation⟩)
      (silent _ (List.mem_of_getLast? confirms.answered))

theorem Does.kept_of_unreachable {done : Done} (does : Does w store done)
    (unreachable : done.fetch.outcome = .unreachable) : done.store = store := by
  cases does with
  | kept same _ => exact same
  | cleared _ refused _ => cases unreachable.symm.trans refused
  | confirmed confirms => rcases confirms.outcome with is | is <;> cases unreachable.symm.trans is

theorem step_of_not_ruled (kept : ¬Ruled U home w store) : step U home store w = store := by
  unfold Ruled at kept
  unfold step
  split
  · rfl
  · rename_i done is
    rw [is] at kept
    exact (fetch_does is).1.kept_of_unreachable (not_not.mp kept)

def Releases (served : List ServedCredential) (c : Released) : Prop :=
  ∃ s ∈ served, s.connection_id = c.connection_id ∧ s.provider = c.provider ∧ s.variable_ = c.variable_ ∧ s.value = c.value

theorem holdServed_mem {fetched_at : String} {providers : List String} {served : List ServedCredential} {c : Released}
    (held : c ∈ (holdServed fetched_at providers served).1) :
    Releases served c ∧ remote_adapter c.provider = true ∧ required_variable c.provider = some c.variable_ := by
  induction served generalizing providers with
  | nil => cases held
  | cons first rest ih =>
    have later {ps : List String} (held : c ∈ (holdServed fetched_at ps rest).1) : Releases (first :: rest) c ∧
        remote_adapter c.provider = true ∧ required_variable c.provider = some c.variable_ := by
      obtain ⟨⟨s, listed, same⟩, own⟩ := ih held
      exact ⟨⟨s, List.mem_cons_of_mem _ listed, same⟩, own⟩
    unfold holdServed at held
    dsimp only at held
    split at held
    · exact later held
    · split at held
      · rename_i credential made
        rcases List.mem_cons.mp held with rfl | held
        · obtain ⟨rfl, remote, own, _, _⟩ := Released.of_new made
          exact ⟨⟨first, List.mem_cons_self, rfl, rfl, rfl, rfl⟩, remote, own⟩
        · exact later held
      · exact later held

def LastConfirmed (U : Urls) (home : String) (max_age : Nat) (run : List Occasion) (store : ReleasedStore)
    (document : ReleaseDocument) : Prop :=
  ∃ before w after done response, run = before ++ w :: after ∧
    fetch_with_clock U home w (runWith (step U home) (.new max_age) before) = .ok done ∧
    Confirms w (runWith (step U home) (.new max_age) before) done response document ∧
    store.confirmed = some w.confirmed ∧
    AlongRun (step U home) (fun store w => ¬Ruled U home w store)
      (runWith (step U home) (.new max_age) (before ++ [w])) after

theorem LastConfirmed.snoc {max_age : Nat} {run : List Occasion} {document : ReleaseDocument}
    (confirmed : LastConfirmed U home max_age run store document)
    (is : store = runWith (step U home) (.new max_age) run) (kept : ¬Ruled U home w store) :
    LastConfirmed U home max_age (run ++ [w]) store document := by
  obtain ⟨before, v, after, done, response, rfl, fetched, confirms, age, quiet⟩ := confirmed
  refine ⟨before, v, after ++ [w], done, response, by simp, fetched, confirms, age, ?_⟩
  rw [AlongRun.snoc]
  refine ⟨quiet, ?_⟩
  rw [← runWith_append, List.append_assoc, List.singleton_append, ← is]
  exact kept

theorem held_confirmed (U : Urls) (home : String) (max_age : Nat) (run : List Occasion) :
    (runWith (step U home) (.new max_age) run).max_age = max_age ∧
      ((runWith (step U home) (.new max_age) run).released = [] ∨
        ∃ document w, LastConfirmed U home max_age run (runWith (step U home) (.new max_age) run) document ∧
          (runWith (step U home) (.new max_age) run).released = (holdServed w [] document.credentials).1) := by
  induction run using List.reverseRecOn with
  | nil => exact ⟨rfl, Or.inl rfl⟩
  | append_singleton run w ih =>
    rw [runWith_append, runWith_cons, runWith_nil]
    generalize before_ : runWith (step U home) (.new max_age) run = before at ih
    by_cases ruled : Ruled U home w before
    · unfold Ruled at ruled
      unfold step
      cases fetched : fetch_with_clock U home w before with
      | error reason =>
        rw [fetched] at ruled
        exact ruled.elim
      | ok done =>
        rw [fetched] at ruled
        dsimp only at ruled ⊢
        cases (fetch_does fetched).1 with
        | kept _ outcome => exact absurd outcome ruled
        | cleared same _ _ =>
          rw [same]
          exact ⟨ih.1, Or.inl rfl⟩
        | @confirmed response document confirms =>
          rw [confirms.store_]
          refine ⟨ih.1, Or.inr ⟨document, w.now, ⟨run, w, [], done, response, rfl, ?_, ?_, rfl, trivial⟩, rfl⟩⟩
          · rw [before_]
            exact fetched
          · rw [before_]
            exact confirms
    · rw [step_of_not_ruled ruled]
      refine ⟨ih.1, ih.2.imp_right ?_⟩
      rintro ⟨document, at_, confirmed, held⟩
      exact ⟨document, at_, confirmed.snoc before_.symm ruled, held⟩

end CommonMeasure.Supply
