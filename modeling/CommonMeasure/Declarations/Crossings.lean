import CommonMeasure.Declarations.Held

/-!
# Crossings that share a record

Each crossing loads the record of an origin, keeps it in hand and writes it back whole, and nothing orders one crossing's steps
among another's.
-/

namespace CommonMeasure.Declarations

/-- Where a crossing has the record in hand: in `read_robots`, which goes on with it, or `rule_probe`; from there to the end of
`read_declared`; in `after_fetch`. -/
inductive Point where
  | robots (goes_on : Bool)
  | declared
  | fetched
deriving DecidableEq

structure Hand where
  loaded : HostRecord
  record : HostRecord
  point : Point
  /-- Which answer the record holds, and which the file held when it was loaded. -/
  stamp : Nat
  base : Nat
  /-- The save the record was loaded from or written as. -/
  version : Nat

structure System where
  file : HostRecord
  stamp : Nat
  version : Nat
  /-- The answers given to any crossing, in the order they were given. -/
  given : List Probe
  hands : Nat → Option Hand

def System.start : System := ⟨.default, 0, 0, [], fun _ => none⟩

inductive Step where
  | load (p : Nat) (point : Point)
  /-- `robots.txt` is read for a URL into the record in hand. -/
  | ask (p : Nat) (url : Text) (now : Int) (answer : Answer)
  /-- The licences of the record change. -/
  | note (p : Nat) (licences : Text → Option Probe) (page_licences : Text → Option Text)
  /-- The function that has the record in hand ends; `after_fetch` may save it or not. -/
  | leave (p : Nat) (saves : Bool)
  | drop (p : Nat)

def System.put (s : System) (p : Nat) (hand : Option Hand) : System := { s with hands := Function.update s.hands p hand }

def System.save (s : System) (hand : Hand) : System :=
  { s with file := hand.record, stamp := hand.stamp, version := s.version + 1 }

def Hand.saves (hand : Hand) (chosen : Bool) : Bool :=
  match hand.point with
  | .robots _ => hand.record.robots ≠ hand.loaded.robots || hand.record.robots_held ≠ hand.loaded.robots_held
  | .declared => true
  | .fetched => chosen

section

variable {Url : Type} (u : UrlCrate Url) (lossy : Bytes → Text)

def System.asked (s : System) (p : Nat) (hand : Hand) (read : RobotsIn) : System :=
  if read.probed.cache ≠ .reused ∧ read.probed.probe.answered = true then
    { s.put p (some { hand with record := read.record, stamp := s.given.length + 1 }) with given := s.given ++
      [read.probed.probe] }
  else s.put p (some { hand with record := read.record })

def System.step (s : System) : Step → Option System
  | .load p point =>
    if s.hands p = none ∧ point ≠ .declared then
      some (s.put p (some ⟨s.file, s.file, point, s.stamp, s.stamp, s.version⟩))
    else none
  | .ask p url now answer => do
    let hand ← s.hands p
    let read ← read_robots_in u lossy hand.record url now answer
    return s.asked p hand read
  | .note p licences page_licences => do
    let hand ← s.hands p
    match hand.point with
    | .robots _ => none
    | _ => return s.put p (some { hand with record := { hand.record with licences, page_licences } })
  | .leave p chosen => do
    let hand ← s.hands p
    let saved := if hand.saves chosen then s.save hand else s
    let version := if hand.saves chosen then saved.version else hand.version
    match hand.point with
    | .robots true => return saved.put p (some { hand with point := .declared, version })
    | _ => return saved.put p none
  | .drop p => some (s.put p none)

def System.run (s : System) : List Step → Option System
  | [] => some s
  | step :: steps => do (← s.step u lossy step).run steps

/-- A step by which no crossing saves over another's save, and the file is asked for as the origin's own. -/
def Calm (robots_url : Text) (s : System) : Step → Prop
  | .ask _ url _ answer => robots_url_of u url = robots_url ∧ Fits answer
  | .leave p chosen => ∀ hand, s.hands p = some hand → hand.saves chosen = true → hand.version = s.version
  | _ => True

def CalmRun (robots_url : Text) (s : System) : List Step → Prop
  | [] => True
  | step :: steps => Calm u robots_url s step ∧ ∀ next, s.step u lossy step = some next → CalmRun robots_url next steps

end

/-! ### The answer of a record -/

def answerOf (record : HostRecord) : Option Probe := (record.robots.filter (·.answered)).or record.robots_held

def stamped (given : List Probe) : Nat → Option Probe
  | 0 => none
  | k + 1 => given[k]?

theorem stamped_append {given : List Probe} {k : Nat} (within : k ≤ given.length) (more : List Probe) :
    stamped (given ++ more) k = stamped given k := by
  cases k with
  | zero => rfl
  | succ k => exact List.getElem?_append_left (by omega)

theorem stamped_some {given : List Probe} {k : Nat} (within : k ≤ given.length) (some_ : 0 < k) :
    ∃ answer, stamped given k = some answer := by
  cases k with
  | zero => omega
  | succ k => exact ⟨given[k], List.getElem?_eq_getElem (by omega)⟩

structure Holds (robots_url : Text) (record : HostRecord) (given : List Probe) (stamp : Nat) : Prop where
  slot : ∀ probe, record.robots = some probe → probe.url = robots_url
  aside : ∀ probe, record.robots_held = some probe → probe.url = robots_url ∧ probe.answered = true
  answer : answerOf record = stamped given stamp
  within : stamp ≤ given.length

variable {Url : Type} {u : UrlCrate Url} {lossy : Bytes → Text} {robots_url : Text}

theorem Holds.later {record : HostRecord} {given : List Probe} {stamp : Nat} (holds : Holds robots_url record given stamp)
    (more : List Probe) : Holds robots_url record (given ++ more) stamp :=
  ⟨holds.slot, holds.aside, by rw [holds.answer, stamped_append holds.within], by
    rw [List.length_append]
    exact Nat.le_add_right_of_le holds.within⟩

theorem held_answerOf {record : HostRecord} (slot : ∀ probe, record.robots = some probe → probe.url = robots_url)
    {probed : Probed}
    (asked : probed.cache ≠ .reused) (unanswered : probed.probe.answered = false) :
    held_after record robots_url probed = answerOf record := by
  unfold held_after answerOf
  rw [if_neg asked, unanswered, if_neg Bool.false_ne_true]
  cases is : record.robots with
  | none => rfl
  | some probe => cases answered : probe.answered <;> simp [Option.filter, slot probe is, answered]

theorem answerOf_url {record : HostRecord} (slot : ∀ probe, record.robots = some probe → probe.url = robots_url)
    (aside : ∀ probe, record.robots_held = some probe → probe.url = robots_url ∧ probe.answered = true) {answer : Probe}
    (is : answerOf record = some answer) : answer.url = robots_url ∧ answer.answered = true := by
  unfold answerOf at is
  rcases Option.or_eq_some_iff.mp is with here | ⟨_, held⟩
  · obtain ⟨robots, answered⟩ := Option.filter_eq_some_iff.mp here
    exact ⟨slot answer robots, answered⟩
  · exact aside answer held

theorem read_held_unanswered {held : Option Probe} {url : Text} {probed : Probed} (unanswered : probed.probe.answered = false)
    (aside : ∀ probe, held = some probe → probe.url = robots_url) :
    (read_held u held url robots_url probed).reading = held.map fun answer => read_answer u answer url := by
  cases held with
  | none => simp [read_held, unanswered]
  | some answer => simp [read_held, unanswered, Option.filter, aside answer rfl]

theorem asked_answer {record : HostRecord} {url : Text} {now : Int} {answer : Answer}
    (is_url : robots_url_of u url = robots_url)
    (fits : Fits answer) (slot : ∀ probe, record.robots = some probe → probe.url = robots_url)
    (aside : ∀ probe, record.robots_held = some probe → probe.url = robots_url ∧ probe.answered = true) :
    ∃ read, read_robots_in u lossy record url now answer = some read ∧
      (∀ probe, read.record.robots = some probe → probe.url = robots_url) ∧
      (∀ probe, read.record.robots_held = some probe → probe.url = robots_url ∧ probe.answered = true) ∧
      answerOf read.record =
        (if read.probed.cache ≠ .reused ∧ read.probed.probe.answered = true then some read.probed.probe else answerOf record) ∧
      read.robots.reading = (answerOf read.record).map fun answer => read_answer u answer url := by
  subst is_url
  cases alive : live record.robots (robots_url_of u url) now .robots with
  | some probe =>
    obtain ⟨is, _⟩ := Option.filter_eq_some_iff.mp alive
    refine ⟨⟨read_held u record.robots_held url (robots_url_of u url) ⟨probe, .reused, record.robots⟩, record,
      ⟨probe, .reused, record.robots⟩⟩, by simp [read_robots_in, cached_probe, alive, held_after], slot, aside, by simp, ?_⟩
    cases answered : probe.answered with
    | true => rw [read_held_ruled (Or.inl ⟨rfl, answered⟩)]; simp [answerOf, is, answered, Option.filter]
    | false =>
      rw [read_held_unanswered answered fun held is => (aside held is).1]
      simp [answerOf, is, answered, Option.filter]
  | none =>
    obtain ⟨fresh, probed, at_, _, shape⟩ := @fresh_robots lossy (robots_url_of u url) now answer fits
    let kept : Probed := ⟨fresh, fresh.decision, fresh.kept⟩
    have asked : kept.cache ≠ .reused := decision_asked fresh
    have whole (answered : fresh.answered = true) : fresh.kept = some fresh := by
      cases shape with
      | answer _ _ _ whole => simp [Probe.kept, whole]
      | failure unanswered => simp [unanswered] at answered
      | unsent unanswered => simp [unanswered] at answered
      | cut unanswered => simp [unanswered] at answered
    let held := held_after record (robots_url_of u url) kept
    have empty (answered : fresh.answered = true) : held = none := by simp [held, held_after, asked, kept, answered]
    have still (answered : fresh.answered = false) : held = answerOf record := held_answerOf slot asked answered
    have gained : answerOf { record with robots := fresh.kept, robots_held := held } =
        if fresh.answered = true then some fresh else answerOf record := by
      cases answered : fresh.answered with
      | true => simp [answerOf, whole answered, answered, Option.filter]
      | false =>
        rw [still answered]
        unfold Probe.kept
        split <;> simp [answerOf, Option.filter, answered]
    refine ⟨⟨read_held u held url (robots_url_of u url) kept, { record with robots := fresh.kept, robots_held := held }, kept⟩,
      by simp [read_robots_in, cached_probe, alive, probed, kept, held], ?_, ?_, by simp [gained, asked, kept], ?_⟩
    · intro probe is
      unfold Probe.kept at is
      split at is
      · cases is
      · rw [← Option.some.inj is, at_]
    · intro probe is
      cases answered : fresh.answered with
      | true =>
        have none_ := (empty answered).symm.trans is
        cases none_
      | false => exact answerOf_url slot aside ((still answered).symm.trans is)
    · rw [gained]
      cases answered : fresh.answered with
      | true => exact read_held_ruled (Or.inl ⟨rfl, answered⟩)
      | false =>
        rw [read_held_unanswered answered fun probe is => (answerOf_url slot aside ((still answered).symm.trans is)).1,
          still answered]
        rfl

/-- Each record, in the file or in a hand, holds the answer of its stamp, and a hand that was loaded from the file as it is, or
written as it, holds no older answer than the file. -/
structure Sound (robots_url : Text) (s : System) : Prop where
  file : Holds robots_url s.file s.given s.stamp
  hands : ∀ p hand, s.hands p = some hand → Holds robots_url hand.record s.given hand.stamp
  based : ∀ p hand, s.hands p = some hand → hand.base ≤ hand.stamp
  version : ∀ p hand, s.hands p = some hand → hand.version ≤ s.version ∧ (hand.version = s.version → s.stamp ≤ hand.stamp)

theorem sound_start : Sound robots_url .start where
  file := ⟨by simp [System.start, HostRecord.default], by simp [System.start, HostRecord.default], rfl, Nat.le_refl 0⟩
  hands := by simp [System.start]
  based := by simp [System.start]
  version := by simp [System.start]

structure Forward (s t : System) : Prop where
  given : s.given <+: t.given
  stamp : s.stamp ≤ t.stamp
  /-- A crossing has the record in hand from before, or starts from the file. -/
  based : ∀ p hand, t.hands p = some hand → (∃ before, s.hands p = some before ∧ hand.base = before.base) ∨ hand.base = s.stamp

theorem Sound.put {s : System} (sound : Sound robots_url s) {p : Nat} {hand : Hand}
    (holds : Holds robots_url hand.record s.given hand.stamp) (based : hand.base ≤ hand.stamp)
    (version : hand.version ≤ s.version ∧ (hand.version = s.version → s.stamp ≤ hand.stamp)) :
    Sound robots_url (s.put p (some hand)) := by
  have either (q : Nat) (other : Hand) (is : (s.put p (some hand)).hands q = some other) :
      q = p ∧ other = hand ∨ s.hands q = some other := by
    by_cases same : q = p
    · subst same
      simp [System.put] at is
      exact Or.inl ⟨rfl, is.symm⟩
    · exact Or.inr (by simpa [System.put, Function.update_of_ne same] using is)
  refine ⟨sound.file, fun q other is => ?_, fun q other is => ?_, fun q other is => ?_⟩
  all_goals
    rcases either q other is with ⟨_, rfl⟩ | before
  · exact holds
  · exact sound.hands q other before
  · exact based
  · exact sound.based q other before
  · exact version
  · exact sound.version q other before

theorem Sound.dropped {s : System} (sound : Sound robots_url s) (p : Nat) : Sound robots_url (s.put p none) := by
  have before (q : Nat) (other : Hand) (is : (s.put p none).hands q = some other) : s.hands q = some other := by
    by_cases same : q = p
    · subst same
      simp [System.put] at is
    · simpa [System.put, Function.update_of_ne same] using is
  exact ⟨sound.file, fun q other is => sound.hands q other (before q other is),
    fun q other is => sound.based q other (before q other is),
    fun q other is => sound.version q other (before q other is)⟩

theorem Sound.saved {s : System} (sound : Sound robots_url s) {p : Nat} {hand : Hand} (is : s.hands p = some hand) :
    Sound robots_url (s.save hand) where
  file := sound.hands p hand is
  hands := sound.hands
  based := sound.based
  version := fun q other is => by
    have older := (sound.version q other is).1
    refine ⟨Nat.le_succ_of_le older, fun same => ?_⟩
    have newer : other.version = s.version + 1 := same
    omega

theorem put_based {s w : System} (hands : w.hands = s.hands) {p : Nat} {hand : Option Hand}
    (based : ∀ after, hand = some after → (∃ before, s.hands p = some before ∧ after.base = before.base) ∨
      after.base = s.stamp) :
    ∀ q after, (w.put p hand).hands q = some after →
      (∃ before, s.hands q = some before ∧ after.base = before.base) ∨ after.base = s.stamp := by
  intro q after is
  by_cases same : q = p
  · subst same
    exact based after (by simpa [System.put] using is)
  · exact Or.inl ⟨after, by simpa [System.put, Function.update_of_ne same, hands] using is, rfl⟩

theorem sound_ask {s : System} (sound : Sound robots_url s) {p : Nat} {hand : Hand} (is : s.hands p = some hand) {url : Text}
    {now : Int} {answer : Answer} {read : RobotsIn} (is_url : robots_url_of u url = robots_url) (fits : Fits answer)
    (reads : read_robots_in u lossy hand.record url now answer = some read) :
    Sound robots_url (s.asked p hand read) ∧ Forward s (s.asked p hand read) := by
  have holds := sound.hands p hand is
  obtain ⟨same, gave, slot, aside, answers, _⟩ := @asked_answer _ u lossy _ hand.record url now answer is_url fits holds.slot holds.aside
  obtain rfl := Option.some.inj (reads.symm.trans gave)
  have newer := sound.version p hand is
  have base := sound.based p hand is
  unfold System.asked
  split
  · rename_i fresh
    rw [if_pos fresh] at answers
    have grown : Sound robots_url { s with given := s.given ++ [read.probed.probe] } :=
      ⟨sound.file.later _, fun q other is => (sound.hands q other is).later _, sound.based, sound.version⟩
    have last_ : stamped (s.given ++ [read.probed.probe]) (s.given.length + 1) = some read.probed.probe := by simp [stamped]
    have record : Holds robots_url read.record (s.given ++ [read.probed.probe]) (s.given.length + 1) :=
      ⟨slot, aside, answers.trans last_.symm, by simp⟩
    have within := sound.file.within
    have held := holds.within
    have behind : hand.base ≤ s.given.length + 1 := by omega
    have ahead : s.stamp ≤ s.given.length + 1 := by omega
    refine ⟨grown.put record behind ⟨newer.1, fun _ => ahead⟩, List.prefix_append _ _, Nat.le_refl _, put_based rfl ?_⟩
    rintro after ⟨⟩
    exact Or.inl ⟨hand, is, rfl⟩
  · rename_i old
    rw [if_neg old] at answers
    refine ⟨sound.put ⟨slot, aside, answers.trans holds.answer, holds.within⟩ base newer, List.prefix_rfl, Nat.le_refl _,
      put_based rfl ?_⟩
    rintro after ⟨⟩
    exact Or.inl ⟨hand, is, rfl⟩

theorem sound_leave {s t : System} (sound : Sound robots_url s) {p : Nat} {chosen : Bool}
    (calm : ∀ hand, s.hands p = some hand → hand.saves chosen = true → hand.version = s.version)
    (steps : s.step u lossy (.leave p chosen) = some t) : Sound robots_url t ∧ Forward s t := by
  cases is : s.hands p with
  | none => simp [System.step, is] at steps
  | some hand =>
    have newer := sound.version p hand is
    have base := sound.based p hand is
    let saved := if hand.saves chosen then s.save hand else s
    let version := if hand.saves chosen then saved.version else hand.version
    have given : saved.given = s.given := by
      simp only [saved]
      split <;> rfl
    have hands : saved.hands = s.hands := by
      simp only [saved]
      split <;> rfl
    have sound_saved : Sound robots_url saved := by
      simp only [saved]
      split
      · exact sound.saved is
      · exact sound
    have stamp : s.stamp ≤ saved.stamp := by
      simp only [saved]
      split
      · rename_i saves
        exact newer.2 (calm hand is saves)
      · exact Nat.le_refl _
    have versions : version ≤ saved.version ∧ (version = saved.version → saved.stamp ≤ hand.stamp) := by
      simp only [version, saved]
      split
      · exact ⟨Nat.le_refl _, fun _ => Nat.le_refl _⟩
      · exact newer
    have shape : t = saved.put p (some { hand with point := .declared, version }) ∨ t = saved.put p none := by
      simp only [System.step, is, Option.bind_eq_bind, Option.bind_some] at steps
      cases point : hand.point with
      | robots goes_on =>
        cases goes_on with
        | true => exact Or.inl (by simpa [point, saved, version] using steps.symm)
        | false => exact Or.inr (by simpa [point, saved] using steps.symm)
      | declared => exact Or.inr (by simpa [point, saved] using steps.symm)
      | fetched => exact Or.inr (by simpa [point, saved] using steps.symm)
    rcases shape with rfl | rfl
    · refine ⟨sound_saved.put (given ▸ sound.hands p hand is) base versions, given ▸ List.prefix_rfl, stamp, put_based hands ?_⟩
      rintro after ⟨⟩
      exact Or.inl ⟨hand, is, rfl⟩
    · exact ⟨sound_saved.dropped p, given ▸ List.prefix_rfl, stamp, put_based hands (by simp)⟩

theorem sound_step {s t : System} {step : Step} (sound : Sound robots_url s) (calm : Calm u robots_url s step)
    (steps : s.step u lossy step = some t) : Sound robots_url t ∧ Forward s t := by
  cases step with
  | load p point =>
    obtain ⟨_, same⟩ := Option.ite_none_right_eq_some.mp steps
    obtain rfl := Option.some.inj same
    refine ⟨sound.put sound.file (Nat.le_refl _) ⟨Nat.le_refl _, fun _ => Nat.le_refl _⟩, List.prefix_rfl, Nat.le_refl _,
      put_based rfl ?_⟩
    rintro after ⟨⟩
    exact Or.inr rfl
  | ask p url now answer =>
    cases is : s.hands p with
    | none => simp [System.step, is] at steps
    | some hand =>
      simp only [System.step, is, Option.bind_eq_bind, Option.bind_some] at steps
      obtain ⟨read, reads, same⟩ := Option.bind_eq_some_iff.mp steps
      obtain rfl := Option.some.inj same
      exact sound_ask sound is calm.1 calm.2 reads
  | note p licences page_licences =>
    cases is : s.hands p with
    | none => simp [System.step, is] at steps
    | some hand =>
      have holds := sound.hands p hand is
      have same : t = s.put p (some { hand with record := { hand.record with licences, page_licences } }) := by
        cases point : hand.point <;> simp [System.step, is, point] at steps
        all_goals exact steps.symm
      subst same
      refine ⟨sound.put ⟨holds.slot, holds.aside, holds.answer, holds.within⟩ (sound.based p hand is) (sound.version p hand is),
        List.prefix_rfl, Nat.le_refl _, put_based rfl ?_⟩
      rintro after ⟨⟩
      exact Or.inl ⟨hand, is, rfl⟩
  | leave p chosen => exact sound_leave sound calm steps
  | drop p =>
    obtain rfl := Option.some.inj steps
    exact ⟨sound.dropped p, List.prefix_rfl, Nat.le_refl _, put_based rfl (by simp)⟩

theorem sound_run {steps : List Step} {s t : System} (sound : Sound robots_url s) (calm : CalmRun u lossy robots_url s steps)
    (runs : s.run u lossy steps = some t) {stamp : Nat} (least : stamp ≤ s.stamp) {started : Nat → Prop}
    (based : ∀ p hand, started p → s.hands p = some hand → stamp ≤ hand.base) :
    Sound robots_url t ∧ s.given <+: t.given ∧ s.stamp ≤ t.stamp ∧
      ∀ p hand, started p → t.hands p = some hand → stamp ≤ hand.base := by
  induction steps generalizing s with
  | nil =>
    obtain rfl := Option.some.inj runs
    exact ⟨sound, List.prefix_rfl, Nat.le_refl _, based⟩
  | cons step steps ih =>
    obtain ⟨next, steps_, runs⟩ := Option.bind_eq_some_iff.mp runs
    obtain ⟨sound_next, forward⟩ := sound_step sound calm.1 steps_
    have further : ∀ p hand, started p → next.hands p = some hand → stamp ≤ hand.base := by
      intro p hand from_ is
      rcases forward.based p hand is with ⟨before, was, same⟩ | same
      · rw [same]
        exact based p before from_ was
      · rw [same]
        exact least
    obtain ⟨sound_end, given, moved, later⟩ := ih sound_next (calm.2 next steps_) runs (Nat.le_trans least forward.stamp) further
    exact ⟨sound_end, forward.given.trans given, Nat.le_trans forward.stamp moved, later⟩

/-- In a run in which no crossing saves over another's save, and the file is asked for as the origin's own: every record holds one
of the answers given, no save replaces the answer of the file by one given earlier or by none, and a crossing that starts after
a save is ruled by the answer saved or one given later. -/
theorem answers_kept {before after : List Step} {s t : System} (calm : CalmRun u lossy robots_url .start before)
    (calm_after : CalmRun u lossy robots_url s after) (runs : System.start.run u lossy before = some s)
    (runs_after : s.run u lossy after = some t) :
    answerOf s.file = stamped s.given s.stamp ∧ answerOf t.file = stamped t.given t.stamp ∧ s.given <+: t.given ∧
      s.stamp ≤ t.stamp ∧
      (∀ answer, answerOf s.file = some answer → ∃ kept, answerOf t.file = some kept) ∧
      ∀ p hand, s.hands p = none → t.hands p = some hand → ∀ url now answer, robots_url_of u url = robots_url → Fits answer →
        ∃ read, read_robots_in u lossy hand.record url now answer = some read ∧
          (read.probed.cache ≠ .reused ∧ read.probed.probe.answered = true ∧
              read.robots.reading = some (read_answer u read.probed.probe url) ∨
            ∃ stamp, s.stamp ≤ stamp ∧ stamp ≤ t.given.length ∧
              read.robots.reading = (stamped t.given stamp).map fun ruling => read_answer u ruling url) := by
  obtain ⟨sound, _, _, _⟩ := @sound_run _ _ _ _ _ _ _ sound_start calm runs 0 (Nat.zero_le _) (fun _ => False) (fun _ _ no => no.elim)
  obtain ⟨sound_end, given, moved, started⟩ :=
    @sound_run _ _ _ _ _ _ _ sound calm_after runs_after s.stamp (Nat.le_refl _) (fun p => s.hands p = none)
      (fun p hand none_ is => by rw [none_] at is; cases is)
  refine ⟨sound.file.answer, sound_end.file.answer, given, moved, ?_, ?_⟩
  · intro answer is
    have some_ : 0 < s.stamp := by
      rw [sound.file.answer] at is
      cases stamp : s.stamp with
      | zero => rw [stamp] at is; cases is
      | succ k => omega
    obtain ⟨kept, held⟩ := stamped_some sound_end.file.within (by omega : 0 < t.stamp)
    exact ⟨kept, sound_end.file.answer.trans held⟩
  · intro p hand none_ is url now answer is_url fits
    have holds := sound_end.hands p hand is
    obtain ⟨read, reads, _, _, answers, ruled⟩ := @asked_answer _ u lossy _ hand.record url now answer is_url fits holds.slot holds.aside
    refine ⟨read, reads, ?_⟩
    by_cases fresh : read.probed.cache ≠ .reused ∧ read.probed.probe.answered = true
    · refine Or.inl ⟨fresh.1, fresh.2, ?_⟩
      rw [ruled, answers, if_pos fresh]
      rfl
    · refine Or.inr ⟨hand.stamp, ?_, holds.within, ?_⟩
      · have base := started p hand none_ is
        have stamp := sound_end.based p hand is
        omega
      · rw [ruled, answers, if_neg fresh, holds.answer]

/-! ### Crossings of one host -/

def refusing : Answer :=
  .ok ("https://a.example/robots.txt".toList, ⟨200, "User-agent: *\nDisallow: /\n".toList.map fun c => c.toUInt8, none⟩)

def asksIn (p : Nat) (now : Int) (answer : Answer) : Step := .ask p plainUrl.text now answer

def System.standing (s : System) : Nat × Option (Option Bool) :=
  (s.stamp, (answerOf s.file).map fun answer => (read_answer oneHost answer plainUrl.text).crawlable)

def between : List Step :=
  [.load 0 (.robots false), asksIn 0 0 allowing, .leave 0 true, .load 1 (.robots true), asksIn 1 (seconds 86399) down,
    .leave 1 true,
    .load 2 (.robots false), asksIn 2 (seconds 86401) refusing, .leave 2 true]

/-- A crossing that loaded the record before a Disallow was saved writes the old Allow back, and the next crossing is ruled by it. -/
theorem answers_lost :
    ((System.start.run oneHost fromBytes between).map System.standing,
      (System.start.run oneHost fromBytes (between ++ [.leave 1 true])).map System.standing,
      ((System.start.run oneHost fromBytes (between ++ [.leave 1 true, .load 3 (.robots false)])).bind fun s =>
        (s.hands 3).bind fun hand => (read_robots_in oneHost fromBytes hand.record plainUrl.text (seconds 86402) down).bind fun read =>
          read.robots.reading.map (·.crawlable))) =
      (some (2, some (some false)), some (1, some (some true)), some (some true)) := by
  decide

def saving : List Step := [.load 0 (.robots false), asksIn 0 0 allowing, .leave 0 true]

theorem answers_kept_allowed :
    ∃ s t, System.start.run oneHost fromBytes saving = some s ∧ s.run oneHost fromBytes [.load 1 (.robots false)] = some t ∧
      answerOf s.file = stamped s.given s.stamp ∧ answerOf t.file = stamped t.given t.stamp ∧ s.given <+: t.given ∧
        s.stamp ≤ t.stamp := by
  have current : ((System.start.run oneHost fromBytes [.load 0 (.robots false), asksIn 0 0 allowing]).all fun asked =>
      (asked.hands 0).all fun hand => hand.version = asked.version) = true := by decide
  have calm : CalmRun oneHost fromBytes "https://a.example/robots.txt".toList .start saving := by
    refine ⟨trivial, fun loaded load => ⟨⟨by decide, fun _ => by decide⟩, fun asked ask => ⟨?_, fun _ _ => trivial⟩⟩⟩
    intro hand is _
    rw [System.run, load, Option.bind_eq_bind, Option.bind_some, System.run, ask] at current
    simpa [System.run, is] using current
  have saves : (System.start.run oneHost fromBytes saving).isSome = true := by decide
  obtain ⟨s, runs⟩ := Option.isSome_iff_exists.mp saves
  have loads : ((System.start.run oneHost fromBytes saving).bind fun s => s.run oneHost fromBytes [.load 1 (.robots false)]).isSome = true := by
    decide
  rw [runs, Option.bind_some] at loads
  obtain ⟨t, runs_after⟩ := Option.isSome_iff_exists.mp loads
  have calm_after : CalmRun oneHost fromBytes "https://a.example/robots.txt".toList s [.load 1 (.robots false)] :=
    ⟨trivial, fun _ _ => trivial⟩
  obtain ⟨answer, answer_after, given, stamp, _⟩ := answers_kept calm calm_after runs runs_after
  exact ⟨s, t, runs, runs_after, answer, answer_after, given, stamp⟩

end CommonMeasure.Declarations
