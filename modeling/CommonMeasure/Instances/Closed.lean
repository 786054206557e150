import CommonMeasure.Instances.OneBody
import CommonMeasure.Instances.Standing

/-!
# What an instance record keeps

Every operation concluded is recorded once and the revision never falls, whatever the order of the answers.
-/

namespace CommonMeasure.Instances

open Json

variable {Pid : Type} {L : Libraries} {instance_ : String} {s : World Pid} {pending : Pending}

def Pending.Made : Pending → Prop
  | .retain retained _ => retained.operations = []
  | .reject rejected _ => rejected.operations = [] ∧ rejected.status = BINDING_REJECTED ∧ rejected.session_id = none
  | .conclude _ _ _ | .standing _ _ => True

/-- What is pending is no answer read before what the record holds: over a closed record it states nothing but that it is
closed, over one whose binding was rejected it does not state it active, and a binding keeps the record's session. -/
def Timely (held : Retained) (rejection : Option Int) : Pending → Prop
  | .retain retained _ => held.revision ≤ retained.revision →
    (held.status = "closed" → retained.status = "closed") ∧ (held.session_id ≠ none → retained.session_id = held.session_id)
  | .standing _ standing => (∀ revision, asI64 (standing.get "revision") = some revision → held.revision ≤ revision) →
    ∀ status, (standing.get "status").asStr = some status →
      (held.status = "closed" → status = "closed") ∧
        (rejection ≠ none → held.status ≠ BINDING_REJECTED → status ≠ "active")
  | .reject _ _ | .conclude _ _ _ => True

/-! ### The record after an answer -/

theorem apply_duties_same (held : Retained) (answer : Value) :
    (held.apply_duties answer).operations = held.operations ∧ (held.apply_duties answer).revision = held.revision ∧
      (held.apply_duties answer).status = held.status ∧ (held.apply_duties answer).session_id = held.session_id := by
  unfold Retained.apply_duties
  split <;> exact ⟨rfl, rfl, rfl, rfl⟩

theorem apply_standing_same (held : Retained) (standing : Value) :
    (held.apply_standing standing).operations = held.operations ∧
      held.revision ≤ (held.apply_standing standing).revision ∧
      (held.apply_standing standing).session_id = held.session_id := by
  unfold Retained.apply_standing
  split
  · exact ⟨rfl, le_refl _, rfl⟩
  · rename_i current
    dsimp only
    refine ⟨(apply_duties_same _ _).1, ?_, (apply_duties_same _ _).2.2.2⟩
    rw [(apply_duties_same _ _).2.1]
    dsimp only
    cases stated : asI64 (standing.get "revision") with
    | none => exact le_refl _
    | some revision =>
      simp only [stated, Option.any_some, decide_eq_true_eq, not_lt] at current
      exact current

theorem apply_standing_status (held : Retained) (standing : Value) :
    (held.apply_standing standing).status = held.status ∨
      ∃ status, (standing.get "status").asStr = some status ∧ (held.apply_standing standing).status = status ∧
        (∀ revision, asI64 (standing.get "revision") = some revision → held.revision ≤ revision) ∧
        ¬(held.status = BINDING_REJECTED ∧ status = "active") := by
  unfold Retained.apply_standing
  split
  · exact Or.inl rfl
  · rename_i current
    simp only [(apply_duties_same _ _).2.2.1]
    cases stated : (standing.get "status").asStr with
    | none => exact Or.inl rfl
    | some status =>
      dsimp only
      split
      · exact Or.inl rfl
      · rename_i other
        refine Or.inr ⟨status, rfl, rfl, fun revision is => ?_, other⟩
        simpa [is] using current

theorem closeInto_same (operation : Operation) (closure : Option Value) (current : Value) (held : Retained) :
    (closeInto operation closure current held).operations = held.operations ++ [operation] ∧
      (closeInto operation closure current held).revision = held.revision ∧
      (closeInto operation closure current held).session_id = held.session_id ∧
      ((closeInto operation closure current held).status = held.status ∨
        (closeInto operation closure current held).status = "closed") := by
  unfold closeInto Retained.concluded
  cases closure with
  | none =>
    obtain ⟨operations, revision, status, session⟩ := apply_duties_same held current
    exact ⟨by rw [operations], revision, session, Or.inl status⟩
  | some closure =>
    obtain ⟨operations, revision, status, session⟩ :=
      apply_duties_same { held with status := "closed", closure := some closure } current
    exact ⟨by rw [operations], revision, session, Or.inr status⟩

theorem applied_keeps {record : Option Retained} {next : Retained} {operation : Operation} (made : pending.Made)
    (is : pending.applied instance_ record = some (next, operation)) :
    next.operations = (record.map Retained.operations).getD [] ++ [operation] ∧
      ∀ held, record = some held → held.revision ≤ next.revision := by
  cases pending with
  | retain retained concluded =>
    unfold Pending.applied at is
    dsimp only at is
    split at is
    · cases is
      cases record with
      | none => exact ⟨by rw [retainInto, Retained.concluded, show retained.operations = [] from made]; rfl, by simp⟩
      | some prior =>
        by_cases later : retained.revision < prior.revision
        · simp only [retainInto, if_pos later]
          exact ⟨rfl, fun held is => by cases is; exact le_refl _⟩
        · simp only [retainInto, if_neg later]
          exact ⟨rfl, fun held is => by cases is; exact not_lt.mp later⟩
    · cases is
  | reject rejected concluded =>
    unfold Pending.applied at is
    dsimp only at is
    split at is
    · cases is
      cases record with
      | none => exact ⟨by rw [rejectInto, Retained.concluded, made.1]; rfl, by simp⟩
      | some prior =>
        by_cases later : rejected.revision < prior.revision
        · simp only [rejectInto, if_pos later]
          exact ⟨rfl, fun held is => by cases is; exact le_refl _⟩
        · simp only [rejectInto, if_neg later]
          exact ⟨rfl, fun held is => by cases is; exact not_lt.mp later⟩
    · cases is
  | conclude concluded closure current =>
    obtain ⟨held, rfl, same⟩ := Option.map_eq_some_iff.mp is
    cases same
    obtain ⟨operations, revision, _, _⟩ := closeInto_same operation closure current held
    exact ⟨operations, fun held' is => by cases is; rw [revision]⟩
  | standing concluded standing =>
    obtain ⟨held, rfl, same⟩ := Option.map_eq_some_iff.mp is
    cases same
    obtain ⟨operations, revision, _⟩ := apply_standing_same held standing
    exact ⟨by rw [standingInto, Retained.concluded, operations]; rfl, fun held' is => by cases is; exact revision⟩

theorem applied_timely {held next : Retained} {operation : Operation} {rejection : Option Int}
    (is : pending.applied instance_ (some held) = some (next, operation)) (timely : Timely held rejection pending) :
    (held.status = "closed" → next.status = "closed") ∧ (held.session_id ≠ none → next.session_id = held.session_id) := by
  cases pending with
  | retain retained concluded =>
    unfold Pending.applied at is
    dsimp only at is
    split at is
    · cases is
      by_cases later : retained.revision < held.revision
      · simp only [retainInto, if_pos later]
        exact ⟨id, fun _ => rfl⟩
      · simp only [retainInto, if_neg later]
        exact timely (not_lt.mp later)
    · cases is
  | reject rejected concluded =>
    unfold Pending.applied at is
    dsimp only at is
    split at is
    · cases is
      by_cases later : rejected.revision < held.revision
      · simp only [rejectInto, if_pos later]
        exact ⟨id, fun _ => rfl⟩
      · simp only [rejectInto, if_neg later]
        exact ⟨fun closed => by simp [Retained.concluded, closed], fun _ => rfl⟩
    · cases is
  | conclude concluded closure current =>
    cases is
    obtain ⟨_, _, session, status⟩ := closeInto_same operation closure current held
    exact ⟨fun closed => status.elim (fun same => same.trans closed) id, fun _ => session⟩
  | standing concluded stated =>
    cases is
    refine ⟨fun closed => ?_, fun _ => (apply_standing_same held stated).2.2⟩
    rcases apply_standing_status held stated with same | ⟨status, said, is, current, _⟩
    · exact same.trans closed
    · exact is.trans ((timely current status said).1 closed)

theorem rejection_reached {record : Option Retained} {next : Retained} {operation : Operation} {rejection : Option Int}
    (is : pending.applied instance_ record = some (next, operation))
    (reached : ∀ revision ∈ rejection, ∃ held, record = some held ∧ revision ≤ held.revision) (made : pending.Made) :
    ∀ revision ∈ pending.rejection record rejection, revision ≤ next.revision := by
  intro revision listed
  have before (listed : revision ∈ rejection) : revision ≤ next.revision := by
    obtain ⟨held, there, below⟩ := reached revision listed
    exact le_trans below ((applied_keeps made is).2 held there)
  cases pending with
  | retain retained concluded =>
    unfold Pending.rejection at listed
    dsimp only at listed
    split at listed
    · exact before listed
    · exact before (Option.filter_eq_some_iff.mp listed).1
  | reject rejected concluded =>
    unfold Pending.rejection at listed
    dsimp only at listed
    split at listed
    · exact before listed
    · rename_i current
      cases listed
      unfold Pending.applied at is
      dsimp only at is
      split at is
      · cases is
        cases record with
        | none => exact le_refl _
        | some prior =>
          have reaches : ¬rejected.revision < prior.revision := by simpa [superseded] using current
          simp only [rejectInto, if_neg reaches]
          exact le_refl _
      · cases is
  | conclude => exact before listed
  | standing => exact before listed

theorem rejection_inactive {record : Option Retained} {next : Retained} {operation : Operation} {rejection : Option Int}
    (is : pending.applied instance_ record = some (next, operation))
    (reached : ∀ revision ∈ rejection, ∃ held, record = some held ∧ revision ≤ held.revision)
    (inactive : rejection ≠ none → ∀ held, record = some held → held.status ≠ "active") (made : pending.Made)
    (timely : ∀ held, record = some held → Timely held rejection pending)
    (still : pending.rejection record rejection ≠ none) : next.status ≠ "active" := by
  cases pending with
  | retain retained concluded =>
    unfold Pending.applied at is
    dsimp only at is
    split at is
    · cases is
      cases record with
      | none =>
        exfalso
        cases known : rejection with
        | none => simp [Pending.rejection, superseded, known] at still
        | some revision =>
          obtain ⟨held, there, _⟩ := reached revision known
          cases there
      | some prior =>
        by_cases later : retained.revision < prior.revision
        · simp only [retainInto, if_pos later]
          have kept : rejection ≠ none := by
            simpa [Pending.rejection, superseded, later] using still
          exact inactive kept prior rfl
        · exfalso
          cases known : rejection with
          | none => simp [Pending.rejection, superseded, known] at still
          | some revision =>
            obtain ⟨held, there, below⟩ := reached revision known
            cases there
            have gone : ¬retained.revision < revision := by omega
            simp [Pending.rejection, superseded, later, known, Option.filter, gone] at still
    · cases is
  | reject rejected concluded =>
    unfold Pending.applied at is
    dsimp only at is
    split at is
    · cases is
      cases record with
      | none =>
        simp only [rejectInto, Retained.concluded, made.2.1]
        decide
      | some prior =>
        by_cases later : rejected.revision < prior.revision
        · simp only [rejectInto, if_pos later]
          have kept : rejection ≠ none := by
            simpa [Pending.rejection, superseded, later] using still
          exact inactive kept prior rfl
        · simp only [rejectInto, if_neg later, Retained.concluded]
          split
          · decide
          · rename_i closed
            rw [not_not.mp closed]
            decide
    · cases is
  | conclude concluded closure current =>
    obtain ⟨held, rfl, same⟩ := Option.map_eq_some_iff.mp is
    cases same
    obtain ⟨_, _, _, same | closed⟩ := closeInto_same operation closure current held
    · rw [same]
      exact inactive still held rfl
    · rw [closed]
      decide
  | standing concluded stated =>
    obtain ⟨held, rfl, same⟩ := Option.map_eq_some_iff.mp is
    cases same
    rcases apply_standing_status held stated with same | ⟨status, said, is, current, other⟩
    · exact same ▸ inactive still held rfl
    · show (held.apply_standing stated).status ≠ "active"
      rw [is]
      by_cases rejected : held.status = BINDING_REJECTED
      · exact fun active => other ⟨rejected, active⟩
      · exact (timely held rfl current status said).2 still rejected

structure Sound (s : World Pid) : Prop where
  recorded : (s.record.map Retained.operations).getD [] = s.concluded
  made : ∀ pid pending, s.phase pid = some pending → pending.Made
  reached : ∀ revision ∈ s.rejection, ∃ held, s.record = some held ∧ revision ≤ held.revision

/-- The sessions' pointers that a write of this record last set name it, and it names the session and is not closed. -/
def Pointed (instance_ : String) (s : World Pid) : Prop :=
  ∀ session target, s.ours session = true → s.pointers session = some target →
    safe_session session = true ∧ target = instance_ ∧
      ∃ held, s.record = some held ∧ held.session_id = some session ∧ held.status ≠ "closed"

structure Kept (instance_ : String) (s : World Pid) : Prop where
  inactive : s.rejection ≠ none → ∀ held, s.record = some held → held.status ≠ "active"
  pointed : Pointed instance_ s

def InTime (s : World Pid) : Event Pid → Prop
  | .applies pid =>
    match s.phase pid with
    | some pending => ∀ held, s.record = some held → Timely held s.rejection pending
    | none => True
  | _ => True

theorem write_record (s : World Pid) (r : Retained) : (s.write instance_ r).record = some r := by
  unfold World.write
  split
  · rfl
  · split <;> rfl

theorem write_phase (s : World Pid) (r : Retained) : (s.write instance_ r).phase = s.phase := by
  unfold World.write
  split
  · rfl
  · split <;> rfl

theorem write_pointed (s : World Pid) {r : Retained} (closed : r.status = "closed") :
    (s.write instance_ r).pointed = s.pointed := by
  unfold World.write
  split
  · rfl
  · rw [if_pos closed]

theorem write_pointer {next : Retained} (pointed : Pointed instance_ s)
    (same : ∀ held, s.record = some held → held.session_id ≠ none → next.session_id = held.session_id) :
    Pointed instance_ (s.write instance_ next) := by
  intro session target ours points
  rw [write_record]
  have before (ours : s.ours session = true) (points : s.pointers session = some target) :
      safe_session session = true ∧ target = instance_ ∧ next.session_id = some session := by
    obtain ⟨safe, rfl, held, there, named, _⟩ := pointed session target ours points
    exact ⟨safe, rfl, (same held there (by rw [named]; exact Option.some_ne_none _)).trans named⟩
  unfold World.write at ours points
  cases named : next.session_id.filter safe_session with
  | none =>
    rw [named] at ours points
    obtain ⟨safe, rfl, is⟩ := before ours points
    rw [is, Option.filter_some, if_pos safe] at named
    cases named
  | some own =>
    rw [named] at ours points
    obtain ⟨is, safe⟩ := Option.filter_eq_some_iff.mp named
    dsimp only at ours points
    by_cases closed : next.status = "closed"
    · rw [if_pos closed] at ours points
      dsimp only at ours points
      -- A closed record's session no longer points at it, and no other pointer was ours.
      by_cases here : s.pointers own = some instance_
      · rw [if_pos here] at points
        by_cases this : session = own
        · rw [this, Function.update_self] at points
          cases points
        · rw [Function.update_of_ne this] at points
          obtain ⟨_, rfl, is'⟩ := before ours points
          exact absurd (Option.some.inj (is'.symm.trans is)) this
      · rw [if_neg here] at points
        obtain ⟨_, rfl, is'⟩ := before ours points
        cases is'.symm.trans is
        exact absurd points here
    · rw [if_neg closed] at ours points
      dsimp only at ours points
      by_cases this : session = own
      · subst this
        rw [Function.update_self] at points
        cases points
        exact ⟨safe, rfl, next, rfl, is, closed⟩
      · rw [Function.update_of_ne this] at ours points
        obtain ⟨_, rfl, is'⟩ := before ours points
        exact absurd (Option.some.inj (is'.symm.trans is)) this

theorem apply_cases (s : World Pid) (pending : Pending) :
    (pending.applied instance_ s.record = none ∧ s.apply instance_ pending = s) ∨
      ∃ next operation, pending.applied instance_ s.record = some (next, operation) ∧
        s.apply instance_ pending = { s.write instance_ next with
          concluded := s.concluded ++ [operation]
          rejection := pending.rejection s.record s.rejection } := by
  unfold World.apply
  cases is : pending.applied instance_ s.record with
  | none => exact Or.inl ⟨rfl, rfl⟩
  | some both => exact Or.inr ⟨both.1, both.2, rfl, rfl⟩

theorem Sound.apply (sound : Sound s) (made : pending.Made) : Sound (s.apply instance_ pending) := by
  rcases apply_cases s pending with ⟨_, same⟩ | ⟨next, operation, is, same⟩
  · rw [same]
    exact sound
  · rw [same]
    have below := rejection_reached is sound.reached made
    refine ⟨?_, ?_, ?_⟩
    · show ((s.write instance_ next).record.map _).getD [] = s.concluded ++ [operation]
      rw [write_record, Option.map_some, Option.getD_some, (applied_keeps made is).1, sound.recorded]
    · intro pid waiting there
      exact sound.made pid waiting ((congrFun (write_phase s next) pid).symm.trans there)
    · intro revision listed
      exact ⟨next, write_record s next, below revision listed⟩

theorem Kept.apply (sound : Sound s) (kept : Kept instance_ s) (made : pending.Made)
    (timely : ∀ held, s.record = some held → Timely held s.rejection pending) : Kept instance_ (s.apply instance_ pending) := by
  rcases apply_cases s pending with ⟨_, same⟩ | ⟨next, operation, is, same⟩
  · rw [same]
    exact kept
  · rw [same]
    refine ⟨?_, ?_⟩
    · intro still held there
      cases (write_record s next).symm.trans there
      exact rejection_inactive is sound.reached kept.inactive made timely still
    · refine write_pointer kept.pointed fun held there named => ?_
      rw [there] at is
      exact (applied_timely is (timely held there)).2 named

theorem apply_record {held : Retained} (there : s.record = some held) (made : pending.Made) :
    ∃ next, (s.apply instance_ pending).record = some next ∧ held.revision ≤ next.revision ∧
      (Timely held s.rejection pending → held.status = "closed" → next.status = "closed" ∧
        (s.apply instance_ pending).pointed = s.pointed) := by
  rcases apply_cases s pending with ⟨_, same⟩ | ⟨next, operation, is, same⟩
  · rw [same]
    exact ⟨held, there, le_refl _, fun _ closed => ⟨closed, rfl⟩⟩
  · rw [same]
    refine ⟨next, write_record s next, (applied_keeps made is).2 held there, fun timely closed => ?_⟩
    rw [there] at is
    have still := (applied_timely is timely).1 closed
    exact ⟨still, write_pointed s still⟩

/-! ### Runs -/

theorem from_accepted_new {hub : String} {registration answer : Value} {work : List Work} {session_id : Option String}
    {r : Retained} (is : Retained.from_accepted hub registration work session_id answer = .ok r) : r.operations = [] := by
  obtain ⟨issuer, _, is⟩ := bind_ok.mp is
  obtain ⟨named, _, is⟩ := bind_ok.mp is
  obtain ⟨revision, _, is⟩ := bind_ok.mp is
  obtain ⟨valid_from, _, is⟩ := bind_ok.mp is
  obtain ⟨expires_at, _, is⟩ := bind_ok.mp is
  obtain ⟨next_check, _, is⟩ := bind_ok.mp is
  cases is
  rfl

theorem ofRejected_new {hub : String} {registration answer : Value} {work : List Work} {r : Retained}
    (is : Retained.ofRejected hub registration work answer = .ok r) :
    r.operations = [] ∧ r.status = BINDING_REJECTED ∧ r.session_id = none := by
  obtain ⟨named, _, is⟩ := bind_ok.mp is
  obtain ⟨safe, _, is⟩ := bind_ok.mp is
  obtain ⟨revision, _, is⟩ := bind_ok.mp is
  cases is
  exact ⟨rfl, rfl, rfl⟩

theorem mutationEnds_made {attempt : Attempt} {job : Job} {taken_from : Option String} {sent : Except String Answer}
    (is : mutationEnds L attempt job taken_from sent = some pending) : pending.Made := by
  unfold mutationEnds at is
  split at is
  · split at is
    · split at is
      · rename_i made
        have new := from_accepted_new made
        cases is
        exact new
      · cases is
    · split at is
      · split at is
        · rename_i made
          cases is
          exact ofRejected_new made
        · cases is
      · split at is <;> cases is
        trivial
  · split at is <;> cases is
    trivial
  · cases is

theorem closureEnds_made {held : Retained} {key now : String} {sent : Except String Answer} :
    (closureEnds held key now sent).Made := by
  unfold closureEnds
  dsimp only
  split
  · trivial
  · split <;> trivial

theorem statusEnds_made {key now : String} {sent : Except String Answer} : (statusEnds key now sent).Made := by
  unfold statusEnds
  dsimp only
  split
  · split <;> trivial
  · trivial

theorem checkEnds_made {self : Retained} {key now : String} {sent : Except String Answer} :
    (checkEnds self key now sent).Made := by
  unfold checkEnds
  dsimp only
  split
  · trivial
  · split
    · split <;> trivial
    · split <;> trivial

section

variable [DecidableEq Pid]

theorem Sound.waits (sound : Sound s) {pid : Pid} {next : Option Pending} (made : ∀ pending ∈ next, pending.Made) :
    Sound (s.waits pid next) := by
  refine ⟨sound.recorded, fun other pending there => ?_, sound.reached⟩
  have there' : Function.update s.phase pid next other = some pending := there
  by_cases here : other = pid
  · rw [here, Function.update_self] at there'
    exact made pending there'
  · rw [Function.update_of_ne here] at there'
    exact sound.made other pending there'

theorem happen_sound (event : Event Pid) (sound : Sound s) : Sound (happen L instance_ s event) := by
  cases event with
  | hub => exact ⟨sound.recorded, sound.made, sound.reached⟩
  | mutates pid attempt job taken_from sent => exact sound.waits fun _ => mutationEnds_made
  | closes pid held key now sent => exact sound.waits fun _ is => Option.some.inj is ▸ closureEnds_made
  | reads pid key now sent => exact sound.waits fun _ is => Option.some.inj is ▸ statusEnds_made
  | checks pid self key now sent => exact sound.waits fun _ is => Option.some.inj is ▸ checkEnds_made
  | applies pid =>
    unfold happen
    dsimp only
    split
    · rename_i pending there
      exact (sound.apply (sound.made pid pending there)).waits fun _ none_ => nomatch none_
    · exact sound
  | points => exact ⟨sound.recorded, sound.made, sound.reached⟩

theorem happen_kept {event : Event Pid} (sound : Sound s) (kept : Kept instance_ s) (timely : InTime s event) :
    Kept instance_ (happen L instance_ s event) := by
  cases event with
  | applies pid =>
    unfold InTime at timely
    unfold happen
    dsimp only at timely ⊢
    split
    · rename_i pending there
      rw [there] at timely
      have next := kept.apply sound (sound.made pid pending there) timely
      exact ⟨next.inactive, next.pointed⟩
    · exact kept
  | points session target =>
    refine ⟨kept.inactive, fun other there ours points => ?_⟩
    have ours' : Function.update s.ours session false other = true := ours
    have points' : Function.update s.pointers session target other = some there := points
    by_cases here : other = session
    · rw [here, Function.update_self] at ours'
      cases ours'
    · rw [Function.update_of_ne here] at ours' points'
      exact kept.pointed other there ours' points'
  | hub => exact ⟨kept.inactive, kept.pointed⟩
  | mutates => exact ⟨kept.inactive, kept.pointed⟩
  | closes => exact ⟨kept.inactive, kept.pointed⟩
  | reads => exact ⟨kept.inactive, kept.pointed⟩
  | checks => exact ⟨kept.inactive, kept.pointed⟩

theorem happen_record {held : Retained} (event : Event Pid) (sound : Sound s) (there : s.record = some held) :
    ∃ next, (happen L instance_ s event).record = some next ∧ held.revision ≤ next.revision ∧
      (InTime s event → held.status = "closed" → next.status = "closed" ∧
        (happen L instance_ s event).pointed = s.pointed) := by
  have same : ∃ next, s.record = some next ∧ held.revision ≤ next.revision ∧
      (InTime s event → held.status = "closed" → next.status = "closed" ∧ s.pointed = s.pointed) :=
    ⟨held, there, le_refl _, fun _ closed => ⟨closed, rfl⟩⟩
  cases event with
  | applies pid =>
    cases waits : s.phase pid with
    | none =>
      have stays : happen L instance_ s (.applies pid) = s := by simp only [happen, waits]
      rw [stays]
      exact same
    | some pending =>
      have applied : happen L instance_ s (.applies pid) = (s.apply instance_ pending).waits pid none := by
        simp only [happen, waits]
      obtain ⟨next, is, below, closes⟩ := apply_record there (sound.made pid pending waits)
      rw [applied]
      refine ⟨next, is, below, fun timely => closes ?_⟩
      simp only [InTime, waits] at timely
      exact timely held there
  | hub => exact same
  | mutates => exact same
  | closes => exact same
  | reads => exact same
  | checks => exact same
  | points => exact same

theorem run_sound {events : List (Event Pid)} (sound : Sound s) : Sound (runWith (happen L instance_) s events) :=
  runWith_invariant (I := Sound) (fun _ event sound => happen_sound event sound) sound events

theorem run_kept {events : List (Event Pid)} (sound : Sound s) (kept : Kept instance_ s)
    (timely : AlongRun (happen L instance_) InTime s events) : Kept instance_ (runWith (happen L instance_) s events) :=
  (runWith_keeps (I := fun s => Sound s ∧ Kept instance_ s)
    (fun _ event both timely => ⟨happen_sound event both.1, happen_kept both.1 both.2 timely⟩) ⟨sound, kept⟩ timely).2

theorem run_record {held : Retained} (events : List (Event Pid)) (sound : Sound s) (there : s.record = some held) :
    ∃ next, (runWith (happen L instance_) s events).record = some next ∧ held.revision ≤ next.revision ∧
      (AlongRun (happen L instance_) InTime s events → held.status = "closed" → next.status = "closed" ∧
        (runWith (happen L instance_) s events).pointed = s.pointed) := by
  induction events generalizing s held with
  | nil => exact ⟨held, there, le_refl _, fun _ closed => ⟨closed, rfl⟩⟩
  | cons event events ih =>
    obtain ⟨next, is, below, closes⟩ := happen_record event sound there
    obtain ⟨last, is', below', closes'⟩ := ih (happen_sound event sound) is
    refine ⟨last, is', le_trans below below', fun timely closed => ?_⟩
    obtain ⟨still, pointed⟩ := closes timely.1 closed
    obtain ⟨end_, pointed'⟩ := closes' timely.2 still
    exact ⟨end_, pointed'.trans pointed⟩

omit [DecidableEq Pid] in
theorem sound_start (pointers : String → Option String) (hub : Hub) : Sound (World.start pointers hub : World Pid) :=
  ⟨rfl, fun _ _ none_ => (nomatch none_), fun _ none_ => (nomatch none_)⟩

omit [DecidableEq Pid] in
theorem kept_start (pointers : String → Option String) (hub : Hub) :
    Kept instance_ (World.start pointers hub : World Pid) :=
  ⟨fun rejected => absurd rfl rejected, fun _ _ ours => nomatch ours⟩

/-- Every operation concluded is recorded once, in turn, and the revision never falls. Where every answer applied is
timely, a closed record stays closed and points no session at itself, a record whose binding was rejected is not active
until one of that or a later revision verified, and the pointers its writes last set name it, open and of that session. -/
theorem instance_kept (L : Libraries) (instance_ : String) (pointers : String → Option String) (hub : Hub)
    (events : List (Event Pid)) :
    ((runWith (happen L instance_) (World.start pointers hub) events).record.map Retained.operations).getD [] =
        (runWith (happen L instance_) (World.start pointers hub) events).concluded ∧
      (∀ before after held, events = before ++ after →
        (runWith (happen L instance_) (World.start pointers hub) before).record = some held →
        ∃ next, (runWith (happen L instance_) (World.start pointers hub) events).record = some next ∧
          held.revision ≤ next.revision ∧
          (AlongRun (happen L instance_) InTime (World.start pointers hub) events → held.status = "closed" →
            next.status = "closed" ∧ (runWith (happen L instance_) (World.start pointers hub) events).pointed =
              (runWith (happen L instance_) (World.start pointers hub) before).pointed)) ∧
      (AlongRun (happen L instance_) InTime (World.start pointers hub) events →
        Kept instance_ (runWith (happen L instance_) (World.start pointers hub) events)) := by
  refine ⟨(run_sound (sound_start pointers hub)).recorded, ?_, run_kept (sound_start pointers hub) (kept_start pointers hub)⟩
  rintro before after held rfl there
  obtain ⟨next, is, below, closes⟩ := run_record after (run_sound (sound_start pointers hub)) there
  rw [← runWith_append] at is closes
  exact ⟨next, is, below, fun timely => closes (AlongRun.append.mp timely).2⟩

end

theorem apply_hub : (s.apply instance_ pending).hub = s.hub := by
  rcases apply_cases s pending with ⟨_, same⟩ | ⟨next, operation, _, same⟩ <;> rw [same]
  show (s.write instance_ next).hub = s.hub
  unfold World.write
  split
  · rfl
  · split <;> rfl

theorem applies_hub [DecidableEq Pid] (pid : Pid) : (happen L instance_ s (.applies pid)).hub = s.hub := by
  unfold happen
  dsimp only
  split
  · exact apply_hub
  · rfl

def sampleAttempt : Attempt where
  version := 1
  hub := "https://hub.example"
  operation := "register"
  instance_ := none
  body := write (.object [("policy", .object [("envelope", .null)]), ("duties", .array [])])
  work := []
  session_id := some "s1"
  registered := none
  last := none

def sampleJob : Job where
  key := "register-1"
  operation := "register"
  instance_ := none
  edge := ⟨"key", "https://hub.example", "https://hub.example", "org"⟩
  path := "/api/v1/instances"
  body := .error "an attempt is kept"
  work := []
  session_id := some "s1"
  success := 201
  now := "2026-09-18T00:00:00.000Z"
  addressed := rfl

def registeredAnswer : Answer :=
  ⟨201, .object [("instance", .string "i1"), ("accepted", .object [("binding", .object [
      ("issuer", .string "https://hub.example"), ("instance", .string "i1"), ("revision", .number (.ofNat 1)),
      ("valid_from", .string "2026-09-18T00:00:00.000Z"), ("expires_at", .string "2026-09-19T00:00:00.000Z"),
      ("next_check", .string "2026-09-18T01:00:00.000Z")])]), ("current", .object [("status", .string "active")])]⟩

def standingAnswer : Answer := ⟨200, .object [("revision", .number (.ofNat 1)), ("status", .string "active")]⟩

def closedAnswer : Answer :=
  ⟨200, .object [("outcome", .string "completed"), ("closed_at", .string "2026-09-18T00:10:00.000Z"),
    ("revision", .number (.ofNat 1)), ("current", .object [("status", .string "closed")])]⟩

def sampleHeld : Retained where
  version := 1
  hub := "https://hub.example"
  issuer := "https://hub.example"
  instance_ := "i1"
  revision := 1
  status := "active"
  work := []
  session_id := some "s1"
  session_taken_from := none
  valid_from := "2026-09-18T00:00:00.000Z"
  expires_at := "2026-09-19T00:00:00.000Z"
  next_check := "2026-09-18T01:00:00.000Z"
  online_validation_required := true
  registration := .object [("duties", .array [])]
  accepted := .null
  rejected := none
  closure := none
  duties := none
  operations := []

def inTurn : List (Event Nat) :=
  [.mutates 0 sampleAttempt sampleJob none (.ok registeredAnswer), .applies 0,
    .closes 1 sampleHeld "close-1" "2026-09-18T00:10:00.000Z" (.ok closedAnswer), .applies 1]

def readBefore : List (Event Nat) :=
  [.mutates 0 sampleAttempt sampleJob none (.ok registeredAnswer), .applies 0,
    .reads 1 "status-1" "2026-09-18T00:09:00.000Z" (.ok standingAnswer), .hub ⟨1, "closed"⟩,
    .closes 2 sampleHeld "close-1" "2026-09-18T00:10:00.000Z" (.ok closedAnswer), .applies 2, .applies 1]

theorem waits_phase [DecidableEq Pid] (s : World Pid) (pid : Pid) (next : Option Pending) :
    (s.waits pid next).phase pid = next := Function.update_self ..

theorem closureEnds_timely {held self : Retained} {rejection : Option Int} {key now : String}
    {sent : Except String Answer} : Timely held rejection (closureEnds self key now sent) := by
  unfold closureEnds
  dsimp only
  split
  · trivial
  · split <;> trivial

theorem inTurn_inTime :
    AlongRun (happen sampleLibraries "i1") InTime (World.start (fun _ => none) ⟨1, "active"⟩) inTurn := by
  refine ⟨trivial, ?_, trivial, ?_, trivial⟩
  · unfold InTime
    dsimp only
    split
    · intro held there
      cases there
    · trivial
  · unfold InTime
    dsimp only
    split
    · rename_i pending waits
      have is : some (closureEnds sampleHeld "close-1" "2026-09-18T00:10:00.000Z" (.ok closedAnswer)) = some pending := by
        rw [← waits]
        exact (waits_phase _ 1 _).symm
      intro held _
      rw [← Option.some.inj is]
      exact closureEnds_timely
    · trivial

theorem instance_kept_inTurn :
    Kept "i1" (runWith (happen sampleLibraries "i1") (World.start (fun _ => none) ⟨1, "active"⟩) inTurn) ∧
      (runWith (happen sampleLibraries "i1") (World.start (fun _ => none) ⟨1, "active"⟩) inTurn).record.map
        Retained.status = some "closed" :=
  ⟨(instance_kept sampleLibraries "i1" _ _ inTurn).2.2 inTurn_inTime, by decide⟩

theorem readBefore_honest :
    AlongRun (happen sampleLibraries "i1") Honest (World.start (fun _ => none) ⟨1, "active"⟩) readBefore := by
  refine ⟨?_, trivial, ?_, ?_, ?_, trivial, trivial, trivial⟩
  · rintro answer is _
    cases is
    refine ⟨fun revision stated => ?_, rfl⟩
    have one : asI64 (((registeredAnswer.body.get "accepted").get "binding").get "revision") = some 1 := by decide
    cases one.symm.trans stated
    exact le_refl _
  · rintro answer is _
    cases is
    rw [applies_hub]
    exact ⟨by decide, by decide⟩
  · refine ⟨?_, fun _ => rfl⟩
    show (happen _ _ _ (.applies 0)).hub.revision ≤ 1
    rw [applies_hub]
    exact le_refl _
  · intro _ _ _
    rfl

theorem closed_reopened : ¬∀ (L : Libraries) (instance_ : String) (pointers : String → Option String) (hub : Hub)
    (events : List (Event Nat)), AlongRun (happen L instance_) Honest (World.start pointers hub) events →
    ∀ before after held, events = before ++ after →
      (runWith (happen L instance_) (World.start pointers hub) before).record = some held → held.status = "closed" →
        ∃ next, (runWith (happen L instance_) (World.start pointers hub) events).record = some next ∧
          next.status = "closed" := by
  intro law
  have closed : (runWith (happen sampleLibraries "i1") (World.start (fun _ => none) ⟨1, "active"⟩)
      (readBefore.take 6)).record.map Retained.status = some "closed" := by decide
  have reopened : (runWith (happen sampleLibraries "i1") (World.start (fun _ => none) ⟨1, "active"⟩)
      readBefore).record.map Retained.status = some "active" := by decide
  obtain ⟨held, there, status⟩ := Option.map_eq_some_iff.mp closed
  obtain ⟨next, last, still⟩ := law sampleLibraries "i1" _ _ readBefore readBefore_honest _ (readBefore.drop 6) held
    (List.take_append_drop 6 readBefore).symm there status
  rw [last, Option.map_some, still] at reopened
  exact absurd reopened (by decide)

end CommonMeasure.Instances
