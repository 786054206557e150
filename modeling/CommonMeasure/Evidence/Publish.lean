import CommonMeasure.Foundation.Runs

/-!
# Two runs published to one path

A publish sets aside the run at the path, takes the path with its own, and removes what it set aside;
a take that finds the path filled is put back and tried again.
-/

namespace CommonMeasure.Publish

inductive Dir (ρ : Type) where
  | whole (run : ρ)
  | remains

def Dir.run {ρ : Type} : Dir ρ → Option ρ
  | .whole run => some run
  | .remains => none

inductive ErrorKind where
  | notFound | directoryNotEmpty | alreadyExists
  deriving DecidableEq

/-- `rename(2)` on directories, none of which is empty: what is at the two paths afterwards. -/
def rename {ρ : Type} (from_ to_ : Option (Dir ρ)) : Except ErrorKind (Option (Dir ρ) × Option (Dir ρ)) :=
  match from_, to_ with
  | none, _ => .error .notFound
  | some _, some _ => .error .directoryNotEmpty
  | some dir, none => .ok (none, some dir)

def PUBLISH_ATTEMPTS : Nat := 8

/-- Where a publish stands: before each rename, while it removes what it set aside, and how it ended. -/
inductive Stage where
  | setAside (attempts : Nat)
  | take (attempts : Nat) (hadPrevious : Bool)
  | putBack (attempts : Nat) (error : ErrorKind)
  | remove
  | removing
  | returned
  | failed (error : ErrorKind)
  | crashed
  deriving DecidableEq

inductive Call where
  | one | two
  deriving DecidableEq

def Call.other : Call → Call
  | .one => .two
  | .two => .one

structure Publisher (ρ : Type) where
  stage : Stage
  staging : Option (Dir ρ)
  previous : Option (Dir ρ)
  /-- Whether it has taken the path. -/
  took : Bool

structure State (ρ : Type) where
  path : Option (Dir ρ)
  publisher : Call → Publisher ρ
  /-- The publish that took the path last. -/
  taker : Option Call
  /-- Every run the path has held. -/
  published : List ρ
  /-- The runs set aside by a publish that then took the path. -/
  replaced : List ρ

inductive Event where
  | advance (call : Call)
  | crash (call : Call)
  /-- The removal of what was set aside fails; its result is ignored. -/
  | keep (call : Call)
  deriving DecidableEq

section

variable {ρ : Type}

def State.set (s : State ρ) (call : Call) (publisher : Publisher ρ) : State ρ :=
  { s with publisher := fun other => if other = call then publisher else s.publisher other }

def State.staged (there : Option ρ) (runs : Call → ρ) : State ρ where
  path := there.map .whole
  publisher call := ⟨.setAside PUBLISH_ATTEMPTS, some (.whole (runs call)), none, false⟩
  taker := none
  published := there.toList
  replaced := []

def contended : ErrorKind → Bool
  | .directoryNotEmpty | .alreadyExists => true
  | .notFound => false

def again (attempts : Nat) (error : ErrorKind) : Stage :=
  if !contended error ∨ attempts - 1 = 0 then .failed error else .setAside (attempts - 1)

def advance (s : State ρ) (call : Call) : State ρ :=
  let p := s.publisher call
  match p.stage with
  | .setAside attempts =>
    match rename s.path p.previous with
    | .ok (path, previous) => { s with path }.set call { p with stage := .take attempts true, previous }
    | .error .notFound => s.set call { p with stage := .take attempts false }
    | .error error => s.set call { p with stage := .failed error }
  | .take attempts hadPrevious =>
    match rename p.staging s.path with
    | .ok (staging, path) =>
      { s with
        path
        taker := some call
        published := s.published ++ (p.staging.bind Dir.run).toList
        replaced := s.replaced ++ (p.previous.bind Dir.run).toList }.set call
          { p with stage := .remove, staging, took := true }
    | .error error =>
      s.set call { p with stage := if hadPrevious then .putBack attempts error else again attempts error }
  | .putBack attempts error =>
    match rename p.previous s.path with
    | .ok (previous, path) => { s with path }.set call { p with stage := again attempts error, previous }
    | .error _ => s.set call { p with stage := again attempts error }
  | .remove => s.set call { p with stage := .removing, previous := p.previous.map fun _ => .remains }
  | .removing => s.set call { p with stage := .returned, previous := none }
  | _ => s

def step (s : State ρ) : Event → State ρ
  | .advance call => advance s call
  | .crash call => s.set call { s.publisher call with stage := .crashed }
  | .keep call =>
    match (s.publisher call).stage with
    | .remove | .removing => s.set call { s.publisher call with stage := .returned }
    | _ => s

def run (s : State ρ) (events : List Event) : State ρ := runWith step s events

def Overtakes (s : State ρ) (call : Call) : Prop :=
  (∃ attempts had, (s.publisher call).stage = .take attempts had) ∧ s.path = none ∧
    ∃ attempts, (s.publisher call.other).stage = .take attempts true

def Clear (s : State ρ) : Event → Prop
  | .advance call => ¬Overtakes s call
  | _ => True

def RunClear (s : State ρ) (events : List Event) : Prop := AlongRun step Clear s events

/-! ### In every order -/

def Publisher.Staged (own : ρ) (replaced : List ρ) (p : Publisher ρ) : Prop :=
  match p.stage with
  | .setAside _ | .take _ _ | .putBack _ _ =>
    p.staging = some (.whole own) ∧ ∀ dir ∈ p.previous, ∃ r, dir = .whole r
  | .remove | .removing => ∀ r, p.previous = some (.whole r) → r ∈ replaced
  | _ => True

theorem Publisher.Staged.grow {own : ρ} {replaced more : List ρ} {p : Publisher ρ} (staged : p.Staged own replaced)
    (grows : replaced ⊆ more) : p.Staged own more := by
  unfold Publisher.Staged at staged ⊢
  split at staged
  · exact staged
  · exact staged
  · exact staged
  · exact fun r whole => grows (staged r whole)
  · exact fun r whole => grows (staged r whole)
  · trivial

/-- The path holds nothing or one whole run, and every run it has held is at the path, or whole where a
publish set it aside, or replaced. -/
structure Kept (runs : Call → ρ) (s : State ρ) : Prop where
  path : ∀ dir ∈ s.path, ∃ r, dir = .whole r
  staged : ∀ call, (s.publisher call).Staged (runs call) s.replaced
  published : ∀ r ∈ s.published, s.path = some (.whole r) ∨ (∃ call, (s.publisher call).previous = some (.whole r)) ∨
    r ∈ s.replaced

theorem staged_kept (there : Option ρ) (runs : Call → ρ) : Kept runs (State.staged there runs) where
  path := by
    intro dir member
    obtain ⟨r, _, rfl⟩ := Option.map_eq_some_iff.mp member
    exact ⟨r, rfl⟩
  staged call := by simp [Publisher.Staged, State.staged]
  published := by
    intro r member
    left
    have held := Option.mem_toList.mp member
    show there.map Dir.whole = _
    rw [held]
    rfl

@[simp] theorem set_same (s : State ρ) (call : Call) (p : Publisher ρ) : (s.set call p).publisher call = p := if_pos rfl

theorem set_other (s : State ρ) {call other : Call} (different : other ≠ call) (p : Publisher ρ) :
    (s.set call p).publisher other = s.publisher other :=
  if_neg different

inductive Advance (s : State ρ) (call : Call) : State ρ → Prop where
  | setAside {attempts dir} (stage : (s.publisher call).stage = .setAside attempts) (there : s.path = some dir)
      (free : (s.publisher call).previous = none) :
      Advance s call
        ({ s with path := none }.set call { s.publisher call with stage := .take attempts true, previous := some dir })
  | absent {attempts} (stage : (s.publisher call).stage = .setAside attempts) (empty : s.path = none) :
      Advance s call (s.set call { s.publisher call with stage := .take attempts false })
  | blocked {attempts aside} (stage : (s.publisher call).stage = .setAside attempts)
      (held : (s.publisher call).previous = some aside) (there : s.path ≠ none) :
      Advance s call (s.set call { s.publisher call with stage := .failed .directoryNotEmpty })
  | take {attempts had dir} (stage : (s.publisher call).stage = .take attempts had)
      (own : (s.publisher call).staging = some dir) (empty : s.path = none) :
      Advance s call
        ({ s with
          path := some dir
          taker := some call
          published := s.published ++ dir.run.toList
          replaced := s.replaced ++ ((s.publisher call).previous.bind Dir.run).toList }.set call
            { s.publisher call with stage := .remove, staging := none, took := true })
  | lost {attempts had error} (stage : (s.publisher call).stage = .take attempts had)
      (failed : rename (s.publisher call).staging s.path = .error error) :
      Advance s call
        (s.set call
          { s.publisher call with stage := if had then .putBack attempts error else again attempts error })
  | putBack {attempts error aside} (stage : (s.publisher call).stage = .putBack attempts error)
      (held : (s.publisher call).previous = some aside) (empty : s.path = none) :
      Advance s call
        ({ s with path := some aside }.set call
          { s.publisher call with stage := again attempts error, previous := none })
  | leave {attempts error} (stage : (s.publisher call).stage = .putBack attempts error) :
      Advance s call (s.set call { s.publisher call with stage := again attempts error })
  | remove (stage : (s.publisher call).stage = .remove) :
      Advance s call
        (s.set call
          { s.publisher call with
            stage := .removing
            previous := (s.publisher call).previous.map fun _ => .remains })
  | removed (stage : (s.publisher call).stage = .removing) :
      Advance s call (s.set call { s.publisher call with stage := .returned, previous := none })
  | rested (ended : (s.publisher call).stage = .returned ∨ (∃ error, (s.publisher call).stage = .failed error) ∨
      (s.publisher call).stage = .crashed) : Advance s call s

theorem rename_ok {from_ to_ : Option (Dir ρ)} {after : Option (Dir ρ) × Option (Dir ρ)}
    (moved : rename from_ to_ = .ok after) : ∃ dir, from_ = some dir ∧ to_ = none ∧ after = (none, some dir) := by
  unfold rename at moved
  split at moved
  · cases moved
  · cases moved
  · rename_i dir
    exact ⟨dir, rfl, rfl, (Except.ok.inj moved).symm⟩

theorem rename_notFound {from_ to_ : Option (Dir ρ)} (failed : rename from_ to_ = .error .notFound) : from_ = none := by
  unfold rename at failed
  split at failed
  · rfl
  · cases failed
  · cases failed

theorem rename_refused {from_ to_ : Option (Dir ρ)} {error : ErrorKind} (failed : rename from_ to_ = .error error)
    (there : from_ ≠ none) : error = .directoryNotEmpty ∧ to_ ≠ none := by
  unfold rename at failed
  split at failed
  · exact absurd rfl there
  · exact ⟨(Except.error.inj failed).symm, by simp⟩
  · cases failed

theorem advance_advance (s : State ρ) (call : Call) : Advance s call (advance s call) := by
  unfold advance
  dsimp only
  split
  · rename_i attempts stage
    split
    · rename_i path previous moved
      obtain ⟨dir, there, free, same⟩ := rename_ok moved
      obtain ⟨rfl, rfl⟩ := Prod.mk.inj same
      exact .setAside stage there free
    · rename_i failed
      exact .absent stage (rename_notFound failed)
    · rename_i error found failed
      cases there : s.path with
      | none =>
        rw [there] at failed
        exact absurd (Except.error.inj failed).symm found
      | some dir =>
        obtain ⟨rfl, held⟩ := rename_refused failed (by simp [there])
        obtain ⟨aside, held⟩ := Option.ne_none_iff_exists'.mp held
        exact .blocked stage held (by simp [there])
  · rename_i attempts had stage
    split
    · rename_i staging path moved
      obtain ⟨dir, own, empty, same⟩ := rename_ok moved
      obtain ⟨rfl, rfl⟩ := Prod.mk.inj same
      rw [own]
      exact .take stage own empty
    · rename_i error failed
      exact .lost stage failed
  · rename_i attempts error stage
    split
    · rename_i previous path moved
      obtain ⟨aside, held, empty, same⟩ := rename_ok moved
      obtain ⟨rfl, rfl⟩ := Prod.mk.inj same
      exact .putBack stage held empty
    · exact .leave stage
  · rename_i stage
    exact .remove stage
  · rename_i stage
    exact .removed stage
  · rename_i notSetAside notTake notPutBack notRemove notRemoving
    apply Advance.rested
    cases stage : (s.publisher call).stage with
    | setAside attempts => exact absurd stage (notSetAside attempts)
    | take attempts had => exact absurd stage (notTake attempts had)
    | putBack attempts error => exact absurd stage (notPutBack attempts error)
    | remove => exact absurd stage notRemove
    | removing => exact absurd stage notRemoving
    | returned => exact Or.inl rfl
    | failed error => exact Or.inr (Or.inl ⟨error, rfl⟩)
    | crashed => exact Or.inr (Or.inr rfl)

section

variable {runs : Call → ρ} {s next : State ρ} {call : Call} {p : Publisher ρ}

theorem Kept.change (kept : Kept runs s) (publishers : next.publisher = s.publisher)
    (grows : s.replaced ⊆ next.replaced)
    (path : ∀ dir ∈ next.path, ∃ r, dir = .whole r)
    (staged : p.Staged (runs call) next.replaced)
    (there : ∀ r, s.path = some (.whole r) → next.path = some (.whole r) ∨ p.previous = some (.whole r))
    (aside : ∀ r, (s.publisher call).previous = some (.whole r) →
      next.path = some (.whole r) ∨ p.previous = some (.whole r) ∨ r ∈ next.replaced)
    (published : ∀ r ∈ next.published, r ∈ s.published ∨ next.path = some (.whole r)) :
    Kept runs (next.set call p) := by
  refine ⟨path, ?_, ?_⟩
  · intro other
    by_cases same : other = call
    · subst same
      rw [set_same]
      exact staged
    · rw [set_other next same, publishers]
      exact (kept.staged other).grow grows
  · intro r member
    rcases published r member with member | now
    · rcases kept.published r member with before | ⟨other, before⟩ | replaced
      · rcases there r before with stays | moved
        · exact Or.inl stays
        · exact Or.inr (Or.inl ⟨call, by rw [set_same, moved]⟩)
      · by_cases same : other = call
        · subst same
          rcases aside r before with moved | stays | replaced
          · exact Or.inl moved
          · exact Or.inr (Or.inl ⟨other, by rw [set_same, stays]⟩)
          · exact Or.inr (Or.inr replaced)
        · exact Or.inr (Or.inl ⟨other, by rw [set_other next same, publishers, before]⟩)
      · exact Or.inr (Or.inr (grows replaced))
    · exact Or.inl now

theorem Kept.on (kept : Kept runs s) (staged : p.Staged (runs call) s.replaced)
    (aside : ∀ r, (s.publisher call).previous = some (.whole r) → p.previous = some (.whole r) ∨ r ∈ s.replaced) :
    Kept runs (s.set call p) :=
  kept.change rfl (fun _ => id) kept.path staged (fun _ before => Or.inl before)
    (fun r before => Or.inr (aside r before)) (fun _ member => Or.inl member)

end

theorem again_staged {own : ρ} {replaced : List ρ} {p : Publisher ρ} (attempts : Nat) (error : ErrorKind)
    (staging : p.staging = some (.whole own)) (previous : ∀ dir ∈ p.previous, ∃ r, dir = .whole r) :
    { p with stage := again attempts error }.Staged own replaced := by
  unfold again
  split
  · trivial
  · exact ⟨staging, previous⟩

theorem Advance.kept {runs : Call → ρ} {s next : State ρ} {call : Call} (advanced : Advance s call next)
    (kept : Kept runs s) : Kept runs next := by
  have staged := kept.staged call
  unfold Publisher.Staged at staged
  cases advanced with
  | setAside stage there free =>
    rw [stage] at staged
    obtain ⟨r, rfl⟩ := kept.path _ there
    apply Kept.change kept
    · rfl
    · exact fun _ => id
    · simp
    · exact ⟨staged.1, fun dir member => ⟨r, (Option.some.inj member).symm⟩⟩
    · exact fun other before => Or.inr (there ▸ before)
    · intro other before
      rw [free] at before
      cases before
    · exact fun other member => Or.inl member
  | absent stage empty =>
    rw [stage] at staged
    exact kept.on staged fun r before => Or.inl before
  | blocked stage held there => exact kept.on trivial fun r before => Or.inl before
  | take stage own empty =>
    rw [stage] at staged
    obtain rfl := Option.some.inj (own.symm.trans staged.1)
    have aside : ∀ r, (s.publisher call).previous = some (.whole r) →
        r ∈ s.replaced ++ ((s.publisher call).previous.bind Dir.run).toList := by
      intro r before
      simp [before, Dir.run]
    apply Kept.change kept
    · rfl
    · exact List.subset_append_left _ _
    · exact fun dir member => ⟨_, (Option.some.inj member).symm⟩
    · exact aside
    · intro r before
      rw [empty] at before
      cases before
    · exact fun r before => Or.inr (Or.inr (aside r before))
    · intro r member
      rcases List.mem_append.mp member with earlier | now
      · exact Or.inl earlier
      · right
        rw [List.mem_singleton.mp now]
  | lost stage failed =>
    rename_i attempts had error
    rw [stage] at staged
    cases had with
    | true => exact kept.on staged fun r before => Or.inl before
    | false => exact kept.on (again_staged attempts error staged.1 staged.2) fun r before => Or.inl before
  | putBack stage held empty =>
    rw [stage] at staged
    obtain ⟨r, rfl⟩ := staged.2 _ held
    apply Kept.change kept
    · rfl
    · exact fun _ => id
    · exact fun dir member => ⟨r, (Option.some.inj member).symm⟩
    · exact again_staged (p := { s.publisher call with previous := none }) _ _ staged.1 (by simp)
    · intro other before
      rw [empty] at before
      cases before
    · exact fun other before => Or.inl (held ▸ before)
    · exact fun other member => Or.inl member
  | leave stage =>
    rw [stage] at staged
    exact kept.on (again_staged _ _ staged.1 staged.2) fun r before => Or.inl before
  | remove stage =>
    rw [stage] at staged
    apply kept.on
    · intro r whole
      cases before : (s.publisher call).previous <;> simp [before] at whole
    · exact fun r before => Or.inr (staged r before)
  | removed stage =>
    rw [stage] at staged
    exact kept.on trivial fun r before => Or.inr (staged r before)
  | rested ended => exact kept

theorem step_kept {runs : Call → ρ} {s : State ρ} (kept : Kept runs s) (event : Event) : Kept runs (step s event) := by
  cases event with
  | advance call => exact (advance_advance s call).kept kept
  | crash call => exact kept.on trivial fun r before => Or.inl before
  | keep call =>
    unfold step
    dsimp only
    split
    · exact kept.on trivial fun r before => Or.inl before
    · exact kept.on trivial fun r before => Or.inl before
    · exact kept

theorem run_kept {runs : Call → ρ} {s : State ρ} (kept : Kept runs s) (events : List Event) : Kept runs (run s events) := by
  induction events generalizing s with
  | nil => exact kept
  | cons event events ih => exact ih (step_kept kept event)

def Calm (path : Option (Dir ρ)) (p other : Publisher ρ) : Prop :=
  match p.stage with
  | .setAside attempts =>
    p.took = false ∧ p.previous = none ∧
      (attempts = PUBLISH_ATTEMPTS ∨ attempts = PUBLISH_ATTEMPTS - 1 ∧ other.took = true ∧ path ≠ none)
  | .take attempts false =>
    p.took = false ∧ p.previous = none ∧ attempts = PUBLISH_ATTEMPTS ∧ (path = none ∨ other.took = true)
  | .take _ true => p.took = false ∧ path = none
  | .remove | .removing | .returned => p.took = true
  | .putBack _ _ | .failed _ => False
  | .crashed => True

def Vacates : Stage → Prop
  | .take _ true | .crashed => True
  | _ => False

structure Orderly (runs : Call → ρ) (s : State ρ) : Prop where
  calm : ∀ call, Calm s.path (s.publisher call) (s.publisher call.other)
  taken : ∀ call, (s.publisher call).took = true → s.taker ≠ none
  path : ∀ call, s.taker = some call →
    s.path = some (.whole (runs call)) ∨ s.path = none ∧ ∃ other, Vacates (s.publisher other).stage

theorem staged_orderly (there : Option ρ) (runs : Call → ρ) : Orderly runs (State.staged there runs) where
  calm _ := ⟨rfl, rfl, Or.inl rfl⟩
  taken _ took := by cases took
  path _ taken := by cases taken

theorem Call.other_ne (call : Call) : call.other ≠ call := by
  cases call <;> simp [Call.other]

@[simp] theorem Call.other_other (call : Call) : call.other.other = call := by
  cases call <;> rfl

theorem Call.eq_other {call other : Call} (different : other ≠ call) : other = call.other := by
  cases call <;> cases other <;> simp [Call.other] at different ⊢

section

variable {path : Option (Dir ρ)} {p changed other : Publisher ρ}

theorem Calm.stay (calm : Calm path other p) (took : p.took = true → changed.took = true) :
    Calm path other changed := by
  unfold Calm at calm ⊢
  split at calm
  · obtain ⟨fresh, free, first | ⟨second, taken, there⟩⟩ := calm
    · exact ⟨fresh, free, Or.inl first⟩
    · exact ⟨fresh, free, Or.inr ⟨second, took taken, there⟩⟩
  · exact ⟨calm.1, calm.2.1, calm.2.2.1, calm.2.2.2.imp_right took⟩
  · exact calm
  · exact calm
  · exact calm
  · exact calm
  · exact calm
  · exact calm
  · trivial

theorem Calm.vacate (calm : Calm path other p) (fresh : p.took = false) : Calm none other changed := by
  unfold Calm at calm ⊢
  split at calm
  · obtain ⟨idle, free, first | ⟨_, taken, _⟩⟩ := calm
    · exact ⟨idle, free, Or.inl first⟩
    · rw [fresh] at taken
      cases taken
  · exact ⟨calm.1, calm.2.1, calm.2.2.1, Or.inl rfl⟩
  · exact ⟨calm.1, rfl⟩
  · exact calm
  · exact calm
  · exact calm
  · exact calm
  · exact calm
  · trivial

theorem Calm.fill {dir : Dir ρ} (calm : Calm none other p) (took : changed.took = true)
    (clear : ∀ attempts, other.stage ≠ .take attempts true) : Calm (some dir) other changed := by
  unfold Calm at calm ⊢
  split at calm
  · obtain ⟨idle, free, first | ⟨_, _, there⟩⟩ := calm
    · exact ⟨idle, free, Or.inl first⟩
    · exact absurd rfl there
  · exact ⟨calm.1, calm.2.1, calm.2.2.1, Or.inr took⟩
  · rename_i attempts stage
    exact absurd stage (clear attempts)
  · exact calm
  · exact calm
  · exact calm
  · exact calm
  · exact calm
  · trivial

variable {runs : Call → ρ} {s next : State ρ} {call : Call}

theorem Orderly.change (orderly : Orderly runs s) (publishers : next.publisher = s.publisher)
    (own : Calm next.path p (s.publisher call.other)) (others : Calm next.path (s.publisher call.other) p)
    (taken : p.took = true ∨ s.taker ≠ none → next.taker ≠ none)
    (path : ∀ call', next.taker = some call' → next.path = some (.whole (runs call')) ∨
      next.path = none ∧ ∃ other, Vacates ((next.set call p).publisher other).stage) :
    Orderly runs (next.set call p) := by
  refine ⟨?_, ?_, path⟩
  · intro each
    by_cases same : each = call
    · subst same
      rw [set_same, set_other next each.other_ne, publishers]
      exact own
    · obtain rfl := Call.eq_other same
      rw [Call.other_other, set_same, set_other next same, publishers]
      exact others
  · intro each took
    by_cases same : each = call
    · subst same
      rw [set_same] at took
      exact taken (Or.inl took)
    · rw [set_other next same, publishers] at took
      exact taken (Or.inr (orderly.taken each took))

theorem Orderly.on (orderly : Orderly runs s) (own : Calm s.path p (s.publisher call.other))
    (took : p.took = (s.publisher call).took) (vacates : Vacates (s.publisher call).stage → Vacates p.stage) :
    Orderly runs (s.set call p) := by
  have others := orderly.calm call.other
  rw [Call.other_other] at others
  refine orderly.change rfl own (others.stay fun before => took.trans before) ?_ ?_
  · rintro (now | before)
    · exact orderly.taken call (took ▸ now)
    · exact before
  · intro taker is
    refine (orderly.path taker is).imp_right fun ⟨empty, other, vacant⟩ => ⟨empty, other, ?_⟩
    by_cases same : other = call
    · subst same
      rw [set_same]
      exact vacates vacant
    · rw [set_other s same]
      exact vacant

theorem Advance.orderly (advanced : Advance s call next) (orderly : Orderly runs s) (kept : Kept runs s)
    (clear : Clear s (.advance call)) : Orderly runs next := by
  have calm := orderly.calm call
  have others := orderly.calm call.other
  rw [Call.other_other] at others
  have staged := kept.staged call
  unfold Calm at calm
  unfold Publisher.Staged at staged
  cases advanced with
  | setAside stage there free =>
    rw [stage] at calm
    apply Orderly.change orderly
    · rfl
    · exact ⟨calm.1, rfl⟩
    · exact others.vacate calm.1
    · rintro (now | before)
      · exact orderly.taken call now
      · exact before
    · exact fun taker is => Or.inr ⟨rfl, call, by rw [set_same]; trivial⟩
  | absent stage empty =>
    rw [stage] at calm
    obtain ⟨fresh, free, first | ⟨_, _, there⟩⟩ := calm
    · exact orderly.on ⟨fresh, free, first, Or.inl empty⟩ rfl (by simp [stage, Vacates])
    · exact absurd empty there
  | blocked stage held there =>
    rw [stage] at calm
    rw [calm.2.1] at held
    cases held
  | take stage own empty =>
    rw [stage] at staged
    obtain rfl := Option.some.inj (own.symm.trans staged.1)
    rw [empty] at others
    have alone : ∀ attempts, (s.publisher call.other).stage ≠ .take attempts true :=
      fun attempts aside => clear ⟨⟨_, _, stage⟩, empty, attempts, aside⟩
    apply Orderly.change orderly
    · rfl
    · rfl
    · exact others.fill rfl alone
    · exact fun _ => Option.some_ne_none call
    · intro taker is
      obtain rfl := Option.some.inj is
      exact Or.inl rfl
  | lost stage failed =>
    rename_i attempts had error
    rw [stage] at calm staged
    obtain ⟨rfl, filled⟩ := rename_refused failed (by simp [staged.1])
    cases had with
    | true => exact absurd calm.2 filled
    | false =>
      obtain ⟨fresh, free, rfl, empty | taken⟩ := calm
      · exact absurd empty filled
      · exact orderly.on ⟨fresh, free, Or.inr ⟨rfl, taken, filled⟩⟩ rfl (by simp [stage, Vacates])
  | putBack stage held empty =>
    rw [stage] at calm
    exact calm.elim
  | leave stage =>
    rw [stage] at calm
    exact calm.elim
  | remove stage =>
    rw [stage] at calm
    exact orderly.on calm rfl (by simp [stage, Vacates])
  | removed stage =>
    rw [stage] at calm
    exact orderly.on calm rfl (by simp [stage, Vacates])
  | rested ended => exact orderly

theorem step_orderly (orderly : Orderly runs s) (kept : Kept runs s) {event : Event} (clear : Clear s event) :
    Orderly runs (step s event) := by
  cases event with
  | advance call => exact (advance_advance s call).orderly orderly kept clear
  | crash call => exact orderly.on trivial rfl fun _ => trivial
  | keep call =>
    have calm := orderly.calm call
    unfold Calm at calm
    unfold step
    dsimp only
    split
    · rename_i stage
      rw [stage] at calm
      exact orderly.on calm rfl (by simp [stage, Vacates])
    · rename_i stage
      rw [stage] at calm
      exact orderly.on calm rfl (by simp [stage, Vacates])
    · exact orderly

theorem run_orderly (orderly : Orderly runs s) (kept : Kept runs s) {events : List Event} (clear : RunClear s events) :
    Orderly runs (run s events) := by
  have both : Orderly runs (run s events) ∧ Kept runs (run s events) :=
    runWith_keeps (I := fun s => Orderly runs s ∧ Kept runs s)
      (fun _ event held clear => ⟨step_orderly held.1 held.2 clear, step_kept held.2 event⟩) ⟨orderly, kept⟩ clear
  exact both.1

end

def Stage.rank : Stage → Nat
  | .setAside attempts => 3 * attempts + 4
  | .take attempts _ => 3 * attempts + 3
  | .putBack attempts _ => 3 * attempts + 2
  | .remove => 2
  | .removing => 1
  | .returned | .failed _ | .crashed => 0

theorem again_rank (attempts : Nat) (error : ErrorKind) : (again attempts error).rank ≤ 3 * attempts + 1 := by
  unfold again
  split
  · exact Nat.zero_le _
  · rename_i more
    have : attempts - 1 ≠ 0 := fun last => more (Or.inr last)
    simp only [Stage.rank]
    omega

theorem Advance.rank {s next : State ρ} {call : Call} (advanced : Advance s call next) :
    (next.publisher call).stage.rank ≤ (s.publisher call).stage.rank - 1 := by
  cases advanced with
  | lost stage failed =>
    rename_i attempts had error
    rw [set_same, stage]
    cases had with
    | true => exact Nat.le_refl _
    | false => exact Nat.le_succ_of_le (again_rank attempts error)
  | putBack stage held empty =>
    rw [set_same, stage]
    exact again_rank _ _
  | leave stage =>
    rw [set_same, stage]
    exact again_rank _ _
  | rested ended => rcases ended with stage | ⟨error, stage⟩ | stage <;> simp [stage, Stage.rank]
  | _ => simp_all [Stage.rank]

theorem Advance.other {s next : State ρ} {call : Call} (advanced : Advance s call next) :
    next.publisher call.other = s.publisher call.other := by
  cases advanced <;> first | rfl | exact set_other _ call.other_ne _

theorem advance_rank (s : State ρ) (call : Call) :
    ((advance s call).publisher call).stage.rank ≤ (s.publisher call).stage.rank - 1 :=
  (advance_advance s call).rank

theorem step_rank (s : State ρ) (event : Event) (call : Call) :
    ((step s event).publisher call).stage.rank ≤ (s.publisher call).stage.rank := by
  cases event with
  | advance moved =>
    by_cases same : call = moved
    · subst same
      exact Nat.le_trans (advance_rank s call) (Nat.sub_le _ _)
    · obtain rfl := Call.eq_other same
      exact Nat.le_of_eq (congrArg (·.stage.rank) (advance_advance s moved).other)
  | crash moved =>
    by_cases same : call = moved
    · subst same
      simp [step, Stage.rank]
    · simp [step, set_other s same]
  | keep moved =>
    unfold step
    dsimp only
    split
    all_goals
      by_cases same : call = moved
      · subst same
        simp [Stage.rank]
      · simp [set_other s same]

theorem run_rank (s : State ρ) (events : List Event) (call : Call) :
    ((run s events).publisher call).stage.rank ≤ (s.publisher call).stage.rank - events.count (.advance call) := by
  induction events generalizing s with
  | nil => exact Nat.le_refl _
  | cons event events ih =>
    have rest := ih (step s event)
    have now := step_rank s event call
    show ((run (step s event) events).publisher call).stage.rank ≤ _
    by_cases same : event = .advance call
    · subst same
      have down : ((step s (.advance call)).publisher call).stage.rank ≤ (s.publisher call).stage.rank - 1 :=
        advance_rank s call
      rw [List.count_cons_self]
      omega
    · rw [List.count_cons_of_ne same]
      omega

theorem again_alive (attempts : Nat) (error : ErrorKind) : again attempts error ≠ .crashed := by
  unfold again
  split <;> simp

theorem Advance.alive {s next : State ρ} {call : Call} (advanced : Advance s call next)
    (alive : (s.publisher call).stage ≠ .crashed) : (next.publisher call).stage ≠ .crashed := by
  cases advanced with
  | lost stage failed =>
    rename_i attempts had error
    rw [set_same]
    cases had with
    | true => simp
    | false => exact again_alive attempts error
  | putBack stage held empty =>
    rw [set_same]
    exact again_alive _ _
  | leave stage =>
    rw [set_same]
    exact again_alive _ _
  | rested ended => exact alive
  | _ => simp

theorem step_alive {s : State ρ} {event : Event} {call : Call} (alive : (s.publisher call).stage ≠ .crashed)
    (spared : event ≠ .crash call) : ((step s event).publisher call).stage ≠ .crashed := by
  cases event with
  | advance moved =>
    by_cases same : call = moved
    · subst same
      exact (advance_advance s call).alive alive
    · obtain rfl := Call.eq_other same
      have before := (advance_advance s moved).other
      exact fun dead => alive ((congrArg (·.stage) before).symm.trans dead)
  | crash moved =>
    have different : call ≠ moved := fun same => spared (same ▸ rfl)
    intro dead
    rw [step, set_other s different] at dead
    exact alive dead
  | keep moved =>
    unfold step
    dsimp only
    split
    all_goals
      by_cases same : call = moved
      · subst same
        simp [alive]
      · simp [set_other s same, alive]

theorem run_alive {s : State ρ} {events : List Event} {call : Call} (alive : (s.publisher call).stage ≠ .crashed)
    (spared : .crash call ∉ events) : ((run s events).publisher call).stage ≠ .crashed := by
  induction events generalizing s with
  | nil => exact alive
  | cons event events ih =>
    have first : event ≠ .crash call := fun same => spared (same ▸ List.mem_cons_self)
    exact ih (step_alive alive first) fun later => spared (List.mem_cons_of_mem event later)

theorem Orderly.ended {runs : Call → ρ} {s : State ρ} (orderly : Orderly runs s) {call : Call}
    (ended : (s.publisher call).stage.rank = 0) (alive : (s.publisher call).stage ≠ .crashed) :
    (s.publisher call).stage = .returned := by
  have calm := orderly.calm call
  unfold Calm at calm
  cases stage : (s.publisher call).stage with
  | returned => rfl
  | crashed => exact absurd stage alive
  | failed error =>
    rw [stage] at calm
    exact calm.elim
  | _ =>
    rw [stage] at ended
    cases ended

/-- Where no publish takes the path while the other has a run set aside: neither fails, each that goes on returns,
and the path ends with the run of the one that took it last. -/
theorem publishes_settle (there : Option ρ) (runs : Call → ρ) (events : List Event)
    (clear : RunClear (State.staged there runs) events) :
    let s := run (State.staged there runs) events
    (∀ dir, s.path = some dir → ∃ r, dir = .whole r) ∧
    (∀ call error, (s.publisher call).stage ≠ .failed error) ∧
    (∀ call, (Stage.setAside PUBLISH_ATTEMPTS).rank ≤ events.count (.advance call) → .crash call ∉ events →
      (s.publisher call).stage = .returned) ∧
    ((∀ call, (s.publisher call).stage = .returned) →
      ∃ call, s.taker = some call ∧ s.path = some (.whole (runs call))) ∧
    (∀ r ∈ s.published, s.path = some (.whole r) ∨ (∃ call, (s.publisher call).previous = some (.whole r)) ∨
      r ∈ s.replaced) := by
  intro s
  have start := staged_kept there runs
  have kept : Kept runs s := run_kept start events
  have orderly : Orderly runs s := run_orderly (staged_orderly there runs) start clear
  refine ⟨kept.path, ?_, ?_, ?_, kept.published⟩
  · intro call error stage
    have calm := orderly.calm call
    unfold Calm at calm
    rw [stage] at calm
    exact calm
  · intro call enough spared
    have left := run_rank (State.staged there runs) events call
    apply orderly.ended
    · exact Nat.le_zero.mp (Nat.le_trans left (Nat.le_of_eq (Nat.sub_eq_zero_of_le enough)))
    · exact run_alive (by simp [State.staged]) spared
  · intro returned
    have took : (s.publisher .one).took = true := by
      have calm := orderly.calm .one
      unfold Calm at calm
      rw [returned .one] at calm
      exact calm
    obtain ⟨call, taker⟩ := Option.ne_none_iff_exists'.mp (orderly.taken .one took)
    refine ⟨call, taker, (orderly.path call taker).resolve_right ?_⟩
    rintro ⟨_, other, vacates⟩
    rw [returned other] at vacates
    exact vacates

end

def collided : List Event :=
  [.advance .one, .advance .two, .advance .two, .advance .one, .advance .one, .advance .one, .advance .two,
    .advance .one, .advance .one, .advance .two]

theorem publishes_settle_collided :
    ∃ call, (run (State.staged none id) collided).taker = some call ∧
      (run (State.staged none id) collided).path = some (.whole call) := by
  have clear : RunClear (State.staged none id) collided := by
    refine ⟨?_, ?_, ?_, ?_, ?_, ?_, ?_, ?_, ?_, ?_, trivial⟩ <;> rintro ⟨_, _, attempts, aside⟩ <;> cases aside
  apply (publishes_settle none id collided clear).2.2.2.1
  intro call
  cases call <;> rfl

/-- One sets aside the run at the path, the other takes the path, and the first has nowhere to set that aside. -/
def overtaken : List Event :=
  [.advance .one, .advance .two, .advance .two, .advance .one, .advance .one, .advance .one]

theorem publish_fails_overtaken :
    ((run (State.staged (some 0) fun call => if call = .one then 1 else 2) overtaken).publisher .one).stage =
      .failed .directoryNotEmpty :=
  rfl

end CommonMeasure.Publish
