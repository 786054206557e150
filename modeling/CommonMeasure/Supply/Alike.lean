import CommonMeasure.Supply.Confined

/-!
# Values that compare alike

Two runs of fetches whose release documents differ only in the values, where each value compares alike with those held,
write, return and journal the same and leave the same standing.
-/

namespace CommonMeasure.Supply

open Json

structure Alike (A B : ReleasedStore) : Prop where
  max_age : A.max_age = B.max_age
  confirmed : A.confirmed = B.confirmed
  names : List.Forall₂ (fun r s : Released => r.name = s.name) A.released B.released

def Compared (held : List (Released × Released)) (x y : String) : Prop :=
  ∀ pair ∈ held, x = pair.1.value ↔ y = pair.2.value

structure ServedAlike (related : String → String → Prop) (held : List (Released × Released)) (s t : ServedCredential) :
    Prop where
  connection_id : s.connection_id = t.connection_id
  provider : s.provider = t.provider
  variable_ : s.variable_ = t.variable_
  rotated_at : s.rotated_at = t.rotated_at
  compared : Compared held s.value t.value
  related : related s.value t.value

structure DocumentsAlike (related : String → String → Prop) (held : List (Released × Released)) (d e : ReleaseDocument) :
    Prop where
  organisation : d.organisation = e.organisation
  key_id : d.key_id = e.key_id
  served_at : d.served_at = e.served_at
  credentials : List.Forall₂ (ServedAlike related held) d.credentials e.credentials

def AnswersAlike (related : String → String → Prop) (held : List (Released × Released)) (v w : Response) : Prop :=
  v.status = w.status ∧
    if v.status = 200 then Option.Rel (DocumentsAlike related held) (ReleaseDocument.from_slice v.body) (ReleaseDocument.from_slice w.body)
    else v.body = w.body

def OccasionsAlike (related : String → String → Prop) (held : List (Released × Released)) (v w : Occasion) : Prop :=
  ∃ responses : Nat → Option Response,
    w = { v with passes := fun n => { v.passes n with response := responses n } } ∧
      ∀ n, Option.Rel (AnswersAlike related held) (v.passes n).response (responses n)

def RunsAlike (U : Urls) (home : String) (related : String → String → Prop) :
    ReleasedStore → ReleasedStore → List Occasion → List Occasion → Prop
  | _, _, [], [] => True
  | A, B, v :: vs, w :: ws =>
    OccasionsAlike related (A.released.zip B.released) v w ∧
      RunsAlike U home related (step U home A v) (step U home B w) vs ws
  | _, _, _, _ => False

def seenAll (U : Urls) (home : String) : ReleasedStore → List Occasion → List Seen
  | _, [] => []
  | store, w :: ws => seen U home w store :: seenAll U home (step U home store w) ws

def BlankAlike (x y : String) : Prop := isBlank x = isBlank y

/-! ### The store -/

variable {A B : ReleasedStore} {now : Nat}

theorem Alike.is_expired (alike : Alike A B) : A.is_expired now = B.is_expired now := by
  have empty : A.released.isEmpty = B.released.isEmpty := by
    rw [Bool.eq_iff_iff, List.isEmpty_iff_length_eq_zero, List.isEmpty_iff_length_eq_zero, alike.names.length_eq]
  unfold ReleasedStore.is_expired
  rw [empty, alike.confirmed, alike.max_age]

theorem names_map {as bs : List Released} (same : List.Forall₂ (fun r s : Released => r.name = s.name) as bs) :
    as.map Released.name = bs.map Released.name := by
  rw [← List.forall₂_eq_eq_eq, List.forall₂_map_left_iff, List.forall₂_map_right_iff]
  exact same

theorem Alike.names_eq (alike : Alike A B) : A.names now = B.names now := by
  unfold ReleasedStore.names ReleasedStore.in_use
  rw [alike.is_expired]
  split
  · rfl
  · exact names_map alike.names

theorem Alike.expired_eq (alike : Alike A B) : A.expired now = B.expired now := by
  unfold ReleasedStore.expired
  rw [alike.is_expired, names_map alike.names]

theorem Alike.standing (alike : Alike A B) (already_set : String → Bool) (now later : Nat) :
    A.standing_under already_set now later = B.standing_under already_set now later := by
  unfold ReleasedStore.standing_under
  rw [alike.names_eq, alike.expired_eq, alike.max_age]

def NewAlike (held : List (Released × Released)) : List Released → List Released → Prop :=
  List.Forall₂ fun r s => r.name = s.name ∧ Compared held r.value s.value

theorem same_as_alike {a b r s : Released} (held : a.name = b.name) (new : r.name = s.name)
    (compared : r.value = a.value ↔ s.value = b.value) : a.same_as r = b.same_as s := by
  simp only [Released.name, ReleasedName.mk.injEq] at held new
  unfold Released.same_as
  rw [held.1, held.2.1, held.2.2.1, held.2.2.2.2, new.1, new.2.1, new.2.2.1, new.2.2.2.2]
  congr 1
  exact decide_eq_decide.mpr ⟨fun is => (compared.mp is.symm).symm, fun is => (compared.mpr is.symm).symm⟩

theorem any_alike {as bs rs ss : List Released} (held : List.Forall₂ (fun r s : Released => r.name = s.name) as bs)
    (new : NewAlike (as.zip bs) rs ss) :
    ((as.zip rs).any fun pair => !pair.1.same_as pair.2) = (bs.zip ss).any fun pair => !pair.1.same_as pair.2 := by
  induction held generalizing rs ss with
  | nil => rfl
  | @cons a b as bs first rest ih =>
    cases new with
    | nil => rfl
    | @cons r s rs ss new more =>
      have later : NewAlike (as.zip bs) rs ss :=
        more.imp fun _ _ both => ⟨both.1, fun pair listed => both.2 pair (List.mem_cons_of_mem _ listed)⟩
      have here := same_as_alike first new.1 (new.2 (a, b) List.mem_cons_self)
      simp only [List.zip_cons_cons, List.any_cons]
      rw [here, ih later]

theorem Alike.replace {rs ss : List Released} (alike : Alike A B) (now confirmed : Nat)
    (new : NewAlike (A.released.zip B.released) rs ss) :
    Alike (A.replace rs now confirmed).1 (B.replace ss now confirmed).1 ∧
      (A.replace rs now confirmed).2 = (B.replace ss now confirmed).2 := by
  refine ⟨⟨alike.max_age, rfl, new.imp fun _ _ both => both.1⟩, ?_⟩
  unfold ReleasedStore.replace ReleasedStore.in_use
  rw [alike.is_expired, new.length_eq]
  cases B.is_expired now with
  | true => rfl
  | false =>
    simp only [Bool.false_eq_true, if_false]
    rw [alike.names.length_eq, any_alike alike.names new]

theorem holdServed_alike {held : List (Released × Released)} (fetched_at : String) (providers : List String)
    {ds es : List ServedCredential} (alike : List.Forall₂ (ServedAlike BlankAlike held) ds es) :
    NewAlike held (holdServed fetched_at providers ds).1 (holdServed fetched_at providers es).1 ∧
      (holdServed fetched_at providers ds).2 = (holdServed fetched_at providers es).2 := by
  induction alike generalizing providers with
  | nil => exact ⟨.nil, rfl⟩
  | @cons s t ds es first rest ih =>
    obtain ⟨connection_id, provider, variable_, value, rotated_at⟩ := s
    obtain ⟨connection_id', provider', variable_', value', rotated_at'⟩ := t
    obtain ⟨rfl, rfl, rfl, rfl, compared, blank⟩ := first
    unfold holdServed Released.new
    dsimp only at compared blank ⊢
    rw [show isBlank value = isBlank value' from blank]
    split
    · exact ⟨(ih _).1, by rw [(ih _).2]⟩
    · split
      · rename_i one both
        split at both
        · rename_i all
          cases both
          rw [if_pos all]
          exact ⟨.cons ⟨rfl, compared⟩ (ih _).1, (ih _).2⟩
        · cases both
      · rename_i neither
        split at neither
        · cases neither
        · rename_i some_
          rw [if_neg some_]
          exact ⟨(ih _).1, by rw [(ih _).2]⟩

def EndedAlike (related : String → String → Prop) (held : List (Released × Released)) : Ended → Ended → Prop
  | .stopped status reason, .stopped status' reason' => status = status' ∧ reason = reason'
  | .answered v, .answered w => AnswersAlike related held v w
  | _, _ => False

theorem faultOf_alike {related : String → String → Prop} {held : List (Released × Released)} {v w : Response}
    (alike : AnswersAlike related held v w) : faultOf v = faultOf w := by
  unfold faultOf
  rw [← alike.1]
  split
  · rename_i unauthorised
    have same := alike.2
    rw [if_neg (by omega)] at same
    rw [same]
  · rfl

theorem rel_none {α β : Type} {R : α → β → Prop} {b : Option β} (both : Option.Rel R none b) : b = none := by
  cases both
  rfl

theorem rel_some {α β : Type} {R : α → β → Prop} {a : α} {b : Option β} (both : Option.Rel R (some a) b) :
    ∃ other, b = some other ∧ R a other := by
  cases both with
  | some both => exact ⟨_, rfl, both⟩

theorem ask_alike {related : String → String → Prop} {held : List (Released × Released)} {v w : Occasion}
    (alike : OccasionsAlike related held v w) (retried_after : Option String) (n : Nat) :
    (ask v retried_after n).retried_after = (ask w retried_after n).retried_after ∧
      (ask v retried_after n).sent = (ask w retried_after n).sent ∧
      EndedAlike related held (ask v retried_after n).ended (ask w retried_after n).ended := by
  obtain ⟨responses, rfl, each⟩ := alike
  fun_induction ask v retried_after n with
  | case1 retried_after n reason signed =>
    rw [ask, signed]
    exact ⟨rfl, rfl, rfl, rfl⟩
  | case2 retried_after n signed silent =>
    have other := rel_none (silent ▸ each n)
    rw [ask, signed]
    dsimp only
    rw [other]
    exact ⟨rfl, rfl, rfl, rfl⟩
  | case3 retried_after n signed response received sound =>
    obtain ⟨response', received', both⟩ := rel_some (received ▸ each n)
    rw [ask, signed]
    dsimp only
    rw [received']
    dsimp only
    rw [← faultOf_alike both, sound]
    exact ⟨rfl, rfl, both⟩
  | case4 retried_after n signed response received code faulty first again ih =>
    obtain ⟨response', received', both⟩ := rel_some (received ▸ each n)
    obtain ⟨retried, sent, ended⟩ := ih
    rw [ask, signed]
    dsimp only
    rw [received']
    dsimp only
    rw [← faultOf_alike both, faulty]
    dsimp only
    rw [dif_pos first]
    exact ⟨retried, congrArg (· + 1) sent, ended⟩
  | case5 retried_after n signed response received code faulty stop =>
    obtain ⟨response', received', both⟩ := rel_some (received ▸ each n)
    rw [ask, signed]
    dsimp only
    rw [received']
    dsimp only
    rw [← faultOf_alike both, faulty]
    dsimp only
    rw [dif_neg stop]
    exact ⟨rfl, rfl, rfl, rfl⟩

theorem rule_alike (enrolment : Enrolment) (v : Occasion) (fetch : Fetch) {one other : Ended} (alike : Alike A B)
    (ended : EndedAlike BlankAlike (A.released.zip B.released) one other) :
    (rule enrolment v A fetch one).1 = (rule enrolment v B fetch other).1 ∧
      Alike (rule enrolment v A fetch one).2 (rule enrolment v B fetch other).2 := by
  cases one with
  | stopped status reason =>
    cases other with
    | stopped status' reason' =>
      obtain ⟨rfl, rfl⟩ := ended
      exact ⟨rfl, alike⟩
    | answered => exact ended.elim
  | answered response =>
    cases other with
    | stopped => exact ended.elim
    | answered response' =>
      obtain ⟨status, same⟩ := ended
      unfold rule
      dsimp only
      rw [← status]
      split
      · rename_i served
        rw [if_pos served] at same
        cases read : ReleaseDocument.from_slice response.body with
        | none =>
          rw [read] at same
          rw [rel_none same]
          exact ⟨rfl, alike⟩
        | some document =>
          rw [read] at same
          obtain ⟨document', read', both⟩ := rel_some same
          rw [read']
          dsimp only
          rw [← both.key_id, ← both.organisation, ← both.served_at]
          split
          · exact ⟨rfl, alike⟩
          · obtain ⟨released, ignored⟩ := holdServed_alike v.now [] both.credentials
            obtain ⟨stores, changed⟩ := alike.replace v.checked v.confirmed released
            refine ⟨?_, stores⟩
            dsimp only
            rw [ignored, changed]
      · rename_i other
        rw [if_neg other] at same
        rw [← same]
        split
        · exact ⟨rfl, (alike.replace v.checked v.confirmed .nil).1⟩
        · exact ⟨rfl, alike⟩

theorem conclude_alike {v : Occasion} {one other : Fetch × ReleasedStore} {sent sent' : Nat}
    {answers answers' : List Response} (fetch : one.1 = other.1) (alike : Alike one.2 other.2) :
    (conclude v one sent answers).fetch = (conclude v other sent' answers').fetch := by
  unfold conclude
  dsimp only
  rw [alike.names_eq, alike.expired_eq, alike.max_age, fetch]

def DoneAlike : Except String Done → Except String Done → Prop
  | .error reason, .error reason' => reason = reason'
  | .ok done, .ok done' => done.fetch = done'.fetch ∧ done.sent = done'.sent ∧ Alike done.store done'.store
  | _, _ => False

theorem fetch_alike (U : Urls) (home : String) {v w : Occasion} (alike : Alike A B)
    (occasions : OccasionsAlike BlankAlike (A.released.zip B.released) v w) :
    DoneAlike (fetch_with_clock U home v A) (fetch_with_clock U home w B) := by
  obtain ⟨retried, sent, ended⟩ := ask_alike occasions none 0
  obtain ⟨responses, is, each⟩ := occasions
  have enrolment_ : w.enrolment = v.enrolment := by rw [is]
  have deployment_ : w.deployment = v.deployment := by rw [is]
  have identity_ : w.identity = v.identity := by rw [is]
  have resolved_ : w.resolved = v.resolved := by rw [is]
  have now_ : w.now = v.now := by rw [is]
  have conclude_ (ruled : Fetch × ReleasedStore) (sent : Nat) (answers : List Response) :
      conclude w ruled sent answers = conclude v ruled sent answers := by rw [is]; rfl
  have rule_ (enrolment : Enrolment) (store : ReleasedStore) (fetch : Fetch) (ended : Ended) :
      rule enrolment w store fetch ended = rule enrolment v store fetch ended := by rw [is]; rfl
  have cleared := alike.replace v.checked v.confirmed .nil
  have clear_ : B.clear w.checked w.confirmed = B.replace [] v.checked v.confirmed := by rw [is]; rfl
  unfold fetch_with_clock
  rw [enrolment_, deployment_, identity_, resolved_, now_]
  simp only [bind, Except.bind, conclude_, rule_, clear_]
  cases v.enrolment with
  | error reason => rfl
  | ok known =>
    cases known with
    | none => rfl
    | some enrolment =>
      dsimp only
      cases U.hub_url_accepted enrolment.hub with
      | error reason => rfl
      | ok =>
        dsimp only
        cases v.deployment with
        | error reason => rfl
        | ok managed =>
          cases managed with
          | none => rfl
          | some policy_url =>
            dsimp only
            cases U.release_url policy_url with
            | error reason => rfl
            | ok url =>
              dsimp only
              cases v.identity with
              | error reason => rfl
              | ok identity =>
                cases identity with
                | unsigned reason => exact ⟨conclude_alike rfl cleared.1, rfl, cleared.1⟩
                | signing =>
                  dsimp only
                  split
                  · rw [← retried]
                    have ruled (fetch : Fetch) := rule_alike enrolment v fetch alike ended
                    exact ⟨conclude_alike (ruled _).1 (ruled _).2, sent, (ruled _).2⟩
                  · exact ⟨conclude_alike rfl alike, rfl, alike⟩

theorem seen_alike {U : Urls} {home : String} {v w : Occasion} (alike : Alike A B)
    (occasions : OccasionsAlike BlankAlike (A.released.zip B.released) v w) :
    seen U home v A = seen U home w B ∧ Alike (step U home A v) (step U home B w) := by
  have written : v.written = w.written := by
    obtain ⟨responses, rfl, -⟩ := occasions
    rfl
  have done := fetch_alike U home alike occasions
  unfold seen step
  cases one : fetch_with_clock U home v A with
  | error reason =>
    cases other : fetch_with_clock U home w B with
    | error reason' =>
      rw [one, other] at done
      exact ⟨by rw [show reason = reason' from done], alike⟩
    | ok =>
      rw [one, other] at done
      exact done.elim
  | ok d =>
    cases other : fetch_with_clock U home w B with
    | error =>
      rw [one, other] at done
      exact done.elim
    | ok e =>
      rw [one, other] at done
      obtain ⟨same, -, stores⟩ := done
      dsimp only
      rw [written, same]
      exact ⟨rfl, stores⟩

theorem runs_alike {U : Urls} {home : String} {vs ws : List Occasion} (alike : Alike A B)
    (runs : RunsAlike U home BlankAlike A B vs ws) :
    seenAll U home A vs = seenAll U home B ws ∧ Alike (runWith (step U home) A vs) (runWith (step U home) B ws) := by
  induction vs generalizing A B ws with
  | nil =>
    cases ws with
    | nil => exact ⟨rfl, alike⟩
    | cons => exact runs.elim
  | cons v vs ih =>
    cases ws with
    | nil => exact runs.elim
    | cons w ws =>
      obtain ⟨same, stores⟩ := seen_alike alike runs.1
      obtain ⟨more, left⟩ := ih stores runs.2
      exact ⟨by rw [seenAll, seenAll, same, more], left⟩

/-- A released value is supplied where the last ruling fetch released it to this edge less than the maximum age ago and
no local source has one; an answer that rules on nothing keeps the set and its age; a fetch sends two requests at most;
and runs that differ only in values which are blank alike and compare alike with those held are seen alike. -/
theorem released_confined (U : Urls) (home : String) (max_age : Nat) :
    (∀ (run : List Occasion) (environment : String → Option String) (now : Nat) (provider value : String),
      supplier_with_released provider (some (runWith (step U home) (.new max_age) run)) environment now =
          some (.ok value) →
        ∃ variable_, required_variable provider = some variable_ ∧
          ((environment variable_ = some value ∧ isBlank value = false) ∨
            ((∀ held, environment variable_ = some held → isBlank held = true) ∧
              ∃ document c confirmed,
                LastConfirmed U home max_age run (runWith (step U home) (.new max_age) run) document ∧
                (runWith (step U home) (.new max_age) run).confirmed = some confirmed ∧ now - confirmed < max_age ∧
                Releases document.credentials c ∧ c.provider = provider ∧ c.variable_ = variable_ ∧ c.value = value))) ∧
    (∀ (w : Occasion) (store : ReleasedStore),
      (¬Ruled U home w store → step U home store w = store) ∧
        ∀ done, fetch_with_clock U home w store = .ok done → done.sent ≤ 2 ∧
          ∀ enrolment, w.enrolment = .ok (some enrolment) → w.identity = .ok .signing →
            (∀ response ∈ done.answers, ¬Rules enrolment response) →
              step U home store w = store ∧ done.fetch.outcome = .unreachable) ∧
    ∀ vs ws, RunsAlike U home BlankAlike (.new max_age) (.new max_age) vs ws →
      seenAll U home (.new max_age) vs = seenAll U home (.new max_age) ws ∧
        ∀ already_set now later,
          (runWith (step U home) (.new max_age) vs).standing_under already_set now later =
            (runWith (step U home) (.new max_age) ws).standing_under already_set now later := by
  refine ⟨?_, ?_, ?_⟩
  · intro run environment now provider value given
    obtain ⟨variable_, needs, here | ⟨nowhere, remote, store, is, held⟩⟩ := supplied given
    · exact ⟨variable_, needs, Or.inl here⟩
    cases is
    refine ⟨variable_, needs, Or.inr ⟨nowhere, ?_⟩⟩
    obtain ⟨c, used, own, is⟩ := ReleasedStore.value_of_eq held
    obtain ⟨listed, confirmed, age, fresh⟩ := ReleasedStore.in_use_mem used
    obtain ⟨same, empty | ⟨document, fetched_at, last, released⟩⟩ := held_confirmed U home max_age run
    · rw [empty] at listed
      cases listed
    · rw [released] at listed
      obtain ⟨releases, also, needs'⟩ := holdServed_mem listed
      rw [own] at needs'
      have mine : remote_adapter provider = true := remote_of_variable remote needs
      exact ⟨document, c, confirmed, last, age, same ▸ fresh, releases,
        remote_unique also mine needs' needs, own, is⟩
  · intro w store
    refine ⟨step_of_not_ruled, fun done fetched => ⟨(fetch_does fetched).2, fun enrolment enrolled signing silent => ?_⟩⟩
    obtain ⟨kept, outcome⟩ := (fetch_does fetched).1.kept_of_silent enrolled signing silent
    refine ⟨?_, outcome⟩
    unfold step
    rw [fetched]
    exact kept
  · intro vs ws runs
    obtain ⟨same, stores⟩ := runs_alike ⟨rfl, rfl, .nil⟩ runs
    exact ⟨same, fun already_set now later => stores.standing already_set now later⟩

/-! ### One edge, one fetch -/

def sampleUrls : Urls where
  hub_url_accepted := fun _ => .ok ()
  release_url := fun _ => .ok "https://hub.example/api/v1/supplier-credentials"

def sampleDocument (value : String) : ReleaseDocument :=
  ⟨"org", "key", "2026-09-19T00:00:00Z", [⟨"c1", "exa", "EXA_API_KEY", value, none⟩]⟩

def sampleBody (value : String) : Bytes :=
  pretty (.object [("organisation", .string "org"), ("key_id", .string "key"),
    ("served_at", .string "2026-09-19T00:00:00Z"), ("credentials", .array [.object [("connection_id", .string "c1"),
      ("provider", .string "exa"), ("variable", .string "EXA_API_KEY"), ("value", .string value)]])])

def sampleOccasion (value : String) : Occasion where
  enrolment := .ok (some ⟨"https://hub.example", "org", "key"⟩)
  deployment := .ok (some "https://hub.example/api/v1/policy/desired")
  identity := .ok .signing
  now := "2026-09-19T00:00:01.000Z"
  budget := 10
  resolved := true
  started := 0
  passes := fun _ => ⟨.ok (), some ⟨200, sampleBody value⟩, 1⟩
  checked := 5
  confirmed := 5
  named := 6
  later := 6
  written := .ok ()

theorem from_slice_sample (value : String) : ReleaseDocument.from_slice (sampleBody value) = some (sampleDocument value) := by
  unfold ReleaseDocument.from_slice sampleBody
  rw [readDocument_pretty]
  rfl

theorem fetch_sample (value : String) :
    (fetch_with_clock sampleUrls "/home" (sampleOccasion value) (.new 900)).toOption.map
        (fun done => (done.fetch.ignored, done.store)) =
      some ((holdServed "2026-09-19T00:00:01.000Z" [] (sampleDocument value).credentials).2,
        ⟨(holdServed "2026-09-19T00:00:01.000Z" [] (sampleDocument value).credentials).1, some 5, 900⟩) := by
  have asked : ask (sampleOccasion value) none 0 = ⟨1, [⟨200, sampleBody value⟩], none, .answered ⟨200, sampleBody value⟩⟩ := by
    rw [ask]
    rfl
  unfold fetch_with_clock
  rw [asked]
  unfold rule
  simp only [if_true]
  rw [from_slice_sample]
  rfl

theorem step_sample (value : String) : step sampleUrls "/home" (.new 900) (sampleOccasion value) =
    ⟨(holdServed "2026-09-19T00:00:01.000Z" [] (sampleDocument value).credentials).1, some 5, 900⟩ := by
  have fetched := fetch_sample value
  unfold step
  cases is : fetch_with_clock sampleUrls "/home" (sampleOccasion value) (.new 900) with
  | error => rw [is] at fetched; cases fetched
  | ok done =>
    rw [is] at fetched
    exact congrArg Prod.snd (Option.some.inj fetched)

theorem seen_sample (value : String) : (seen sampleUrls "/home" (sampleOccasion value) (.new 900)).recorded.map
    Fetch.ignored = some (holdServed "2026-09-19T00:00:01.000Z" [] (sampleDocument value).credentials).2 := by
  have fetched := fetch_sample value
  unfold seen
  cases is : fetch_with_clock sampleUrls "/home" (sampleOccasion value) (.new 900) with
  | error => rw [is] at fetched; cases fetched
  | ok done =>
    rw [is] at fetched
    exact congrArg some (congrArg Prod.fst (Option.some.inj fetched))

theorem sample_alike {related : String → String → Prop} {x y : String} (pair : related x y) :
    RunsAlike sampleUrls "/home" related (.new 900) (.new 900) [sampleOccasion x] [sampleOccasion y] := by
  refine ⟨⟨fun _ => some ⟨200, sampleBody y⟩, rfl, fun _ => .some ⟨rfl, ?_⟩⟩, trivial⟩
  rw [if_pos rfl, from_slice_sample, from_slice_sample]
  exact .some ⟨rfl, rfl, rfl, .cons ⟨rfl, rfl, rfl, rfl, fun _ held => (nomatch held), pair⟩ .nil⟩

theorem held_sample (now : String) : (holdServed now [] (sampleDocument "v1").credentials) =
    ([⟨"c1", "exa", "EXA_API_KEY", none, now, "v1"⟩], []) := by
  have new : Released.new "c1" "exa" "EXA_API_KEY" "v1" none now =
      some ⟨"c1", "exa", "EXA_API_KEY", none, now, "v1"⟩ := by
    unfold Released.new
    rw [if_pos (by decide)]
  simp [holdServed, sampleDocument, new]

/-- A released value is supplied, and another in its place is seen alike. -/
theorem released_confined_sample :
    (∃ document, LastConfirmed sampleUrls "/home" 900 [sampleOccasion "v1"]
      (runWith (step sampleUrls "/home") (.new 900) [sampleOccasion "v1"]) document) ∧
    seenAll sampleUrls "/home" (.new 900) [sampleOccasion "v1"] =
      seenAll sampleUrls "/home" (.new 900) [sampleOccasion "v2"] := by
  have law := released_confined sampleUrls "/home" 900
  have given : supplier_with_released "exa"
      (some (runWith (step sampleUrls "/home") (.new 900) [sampleOccasion "v1"])) (fun _ => none) 6 = some (.ok "v1") := by
    rw [runWith_cons, runWith_nil, step_sample, held_sample]
    decide
  obtain ⟨variable_, _, here | ⟨_, document, _, _, last, _⟩⟩ := law.1 _ _ _ _ _ given
  · cases here.1
  · exact ⟨⟨document, last⟩, (law.2.2 _ _ (sample_alike (show isBlank "v1" = isBlank "v2" by decide))).1⟩

/-- A blank value compares with the values held as another does, and is not held. -/
theorem blank_told : ¬∀ (U : Urls) (home : String) (max_age : Nat) (vs ws : List Occasion),
    RunsAlike U home (fun _ _ => True) (.new max_age) (.new max_age) vs ws →
      seenAll U home (.new max_age) vs = seenAll U home (.new max_age) ws := by
  intro law
  have same := law sampleUrls "/home" 900 _ _ (@sample_alike _ "v1" " " trivial)
  have one := seen_sample "v1"
  have other := seen_sample " "
  rw [show seen sampleUrls "/home" (sampleOccasion "v1") (.new 900) = seen sampleUrls "/home" (sampleOccasion " ") (.new 900)
    from (List.cons.inj same).1, other, held_sample] at one
  exact absurd one (by decide)

end CommonMeasure.Supply
