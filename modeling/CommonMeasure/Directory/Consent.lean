import CommonMeasure.Directory.Selection

/-!
# What a home reports

Which directories a home's files let it report, and what enrolments and losses make of that.
-/

namespace CommonMeasure.Directory

open Json Locked

/-! ### The selection in force -/

/-- `deployment.json`. -/
inductive Deployment where
  | absent
  | local
  | managed
  | invalid (reason : String)

def is_managed : Deployment → Except String Bool
  | .absent | .local => .ok false
  | .managed => .ok true
  | .invalid reason => .error reason

/-- The approvals are those of a snapshot that verifies and has not expired, under the source policy the hub applied. -/
structure Edge where
  home : Home
  deployment : Deployment
  approvals : Option (List Value)

structure Selection where
  registry : Option (List Project)
  managed : Bool
  approvals : List Value

variable (L : Libraries) (fs : FileSystem)

def Selection.read (edge : Edge) : Except String Selection := do
  match ← Directory.read L edge.home with
  | none => .ok ⟨none, false, []⟩
  | some registry =>
    let managed ← is_managed edge.deployment
    .ok ⟨some registry, managed, if managed then edge.approvals.getD [] else []⟩

def approves (p : Project) (approval : Value) : Bool :=
  (approval.get "project_id").asStr = some p.id && (approval.get "binding").asStr = some p.binding

def Selection.permitted (selection : Selection) (p : Project) : Bool :=
  p.reporting && (!selection.managed || selection.approvals.any (approves p))

structure Source where
  scope : Option String
  governing_engagement : Option String
  allow_telemetry_egress : Bool
  fail_closed : Option String

def Selection.grants (selection : Selection) (source : Source) (cwd : String) : Bool :=
  match selection.registry with
  | none => source.governing_engagement.isSome && source.allow_telemetry_egress
  | some projects =>
    (matching L fs projects cwd).any fun p =>
      !(source.scope.isSome && !source.allow_telemetry_egress) && selection.permitted p

def reports (edge : Edge) (source : Source) (cwd : String) : Bool :=
  match Selection.read L edge with
  | .error _ => false
  | .ok selection => source.fail_closed.isNone && selection.grants L fs source cwd

variable {L} {fs} {edge : Edge} {source : Source} {cwd : String}

theorem reports_iff {projects : List Project} (registry : read L edge.home = .ok (some projects)) :
    reports L fs edge source cwd = true ↔ ∃ managed p, is_managed edge.deployment = .ok managed ∧
      source.fail_closed = none ∧ matching L fs projects cwd = some p ∧
      (source.scope.isSome && !source.allow_telemetry_egress) = false ∧ p.reporting = true ∧
      (managed = true → ∃ approval ∈ edge.approvals.getD [], approves p approval = true) := by
  unfold reports Selection.read
  rw [registry]
  cases mode : is_managed edge.deployment with
  | error => simp [bind, Except.bind]
  | ok managed =>
    simp only [bind, Except.bind, Selection.grants, Bool.and_eq_true, Option.any_eq_true, Selection.permitted,
      Option.isNone_iff_eq_none, Bool.not_eq_true']
    constructor
    · rintro ⟨open_, p, is, clear, reporting, approved⟩
      refine ⟨managed, p, rfl, open_, is, clear, reporting, fun required => ?_⟩
      simpa [required] using approved
    · rintro ⟨_, p, same, open_, is, clear, reporting, approved⟩
      cases same
      refine ⟨open_, p, is, clear, reporting, ?_⟩
      by_cases required : managed = true
      · simpa [required] using approved required
      · simp [required]

theorem reports_of {other : Edge} {projects more : List Project} (registry : read L edge.home = .ok (some projects))
    (registry' : read L other.home = .ok (some more)) (deployment : other.deployment = edge.deployment)
    (approvals : ∀ approval ∈ other.approvals.getD [], approval ∈ edge.approvals.getD [])
    (same : ∀ p, matching L fs more cwd = some p → p.reporting = true → matching L fs projects cwd = some p)
    (after : reports L fs other source cwd = true) : reports L fs edge source cwd = true := by
  obtain ⟨managed, p, is, open_, matched, clear, reporting, approved⟩ := (reports_iff registry').mp after
  refine (reports_iff registry).mpr ⟨managed, p, deployment ▸ is, open_, same p matched reporting, clear, reporting, ?_⟩
  intro managed_
  obtain ⟨approval, listed, approved⟩ := approved managed_
  exact ⟨approval, approvals approval listed, approved⟩

theorem filter_enrolInto {key : Components × UInt32} {make : Option Project → Project} {keeps : Project → Bool}
    {projects : List Project} (absent : keeps (make (projects.find? (·.key = key))) = false)
    (gone : ∀ old, projects.find? (·.key = key) = some old → keeps old = false) :
    (enrolInto key make projects).1.filter keeps = projects.filter keeps := by
  induction projects with
  | nil => simpa [enrolInto] using absent
  | cons p rest ih =>
    rw [enrolInto]
    by_cases same : p.key = key
    · simp only [List.find?_cons_of_pos, same, decide_true] at absent gone
      rw [if_pos same, List.filter_cons_of_neg (by simp [absent]), List.filter_cons_of_neg (by simp [gone p rfl])]
    · rw [List.find?_cons_of_neg (by simpa using same)] at absent gone
      rw [if_neg same]
      by_cases kept : keeps p = true
      · rw [List.filter_cons_of_pos kept, List.filter_cons_of_pos kept, ih absent gone]
      · rw [List.filter_cons_of_neg kept, List.filter_cons_of_neg kept, ih absent gone]

theorem made_enrolInto (key : Components × UInt32) (make : Option Project → Project) (projects : List Project) :
    make (projects.find? (·.key = key)) ∈ (enrolInto key make projects).1 := by
  induction projects with
  | nil => exact List.mem_cons_self
  | cons p rest ih =>
    rw [enrolInto]
    by_cases same : p.key = key
    · simp [same]
    · simp [same, ih]

theorem selected_congr {a b root : String} (same : componentsOf a = componentsOf b) (is : selected fs a = .ok root) :
    selected fs b = .ok root := by
  unfold selected at is ⊢
  rw [same] at is
  cases resolved : fs.canonicalize (componentsOf b) with
  | error =>
    rw [resolved] at is
    cases is
  | ok =>
    rw [resolved] at is
    exact is

theorem enrolled_eq {e : Enrolment} {projects more : List Project} {p : Project}
    (is : e.enrolled L projects = .ok (more, p)) : ∃ root user git filesystem_id,
      e.checked = .ok (root, user, git) ∧ e.stamped.filesystem_id (componentsOf root) = .ok filesystem_id ∧
      more = (enrolInto (componentsOf root, user) (e.project L root user git filesystem_id) projects).1 := by
  unfold Enrolment.enrolled at is
  cases checked : e.checked with
  | error =>
    rw [checked] at is
    cases is
  | ok found =>
    obtain ⟨root, user, git⟩ := found
    rw [checked] at is
    cases stamped : e.stamped.filesystem_id (componentsOf root) with
    | error =>
      simp only [bind, Except.bind, stamped] at is
      cases is
    | ok filesystem_id =>
      simp only [bind, Except.bind, stamped] at is
      exact ⟨root, user, git, filesystem_id, rfl, stamped, (congrArg Prod.fst (Except.ok.inj is)).symm⟩

theorem checked_git {e : Enrolment} {root : String} {user : UInt32} {git : Option String}
    (is : e.checked = .ok (root, user, git)) :
    ∃ linked, git_identity e.resolved (componentsOf root) = .ok linked ∧ git = linked.map Prod.fst := by
  unfold Enrolment.checked at is
  cases resolved : selected e.resolved e.root with
  | error =>
    rw [resolved] at is
    cases is
  | ok found =>
    rw [resolved] at is
    simp only [bind, Except.bind] at is
    split at is
    · cases is
    split at is
    · cases is
    cases linked : git_identity e.resolved (componentsOf found) with
    | error =>
      rw [linked] at is
      cases is
    | ok linked_ =>
      rw [linked] at is
      cases is
      exact ⟨linked_, linked, rfl⟩

theorem governs_enrolled {e : Enrolment} {root : String} {user user' : UInt32} {git : Option String} {path : String}
    {linked : Option (String × Components)} {filesystem_id : String} {old : Project} (local_ : e.reporting = false)
    (same : e.resolved = fs ∧ e.bound = fs ∧ e.stamped = fs) (checked : e.checked = .ok (root, user, git))
    (stamped : e.stamped.filesystem_id (componentsOf root) = .ok filesystem_id) (key : old.key = (componentsOf root, user))
    (governed : governs L fs user' path linked old = true) :
    governs L fs user' path linked (e.project L root user git filesystem_id (some old)) = true := by
  obtain ⟨resolved, bound, stamped_⟩ := same
  obtain ⟨roots, users⟩ := Prod.mk.inj key
  obtain ⟨linked_, git_, rfl⟩ := checked_git checked
  rw [resolved] at git_
  rw [stamped_] at stamped
  unfold governs at governed ⊢
  split at governed
  · cases governed
  rename_i found there
  have there' : selected fs (e.project L root user (linked_.map Prod.fst) filesystem_id (some old)).root = .ok found :=
    selected_congr roots there
  rw [there']
  dsimp only
  split at governed
  · cases governed
  rename_i root_git git'
  simp only [bindingMatches, Bool.and_eq_true, decide_eq_true_eq] at governed
  obtain ⟨⟨⟨again, ⟨⟨user_, _⟩, _⟩, _⟩, above⟩, _⟩ := governed
  rw [again, roots, git_] at git'
  cases git'
  have same_user : user = user' := users.symm.trans user_
  have bound_ : componentsOf found = componentsOf root := again.trans roots
  rw [bound_]
  rw [roots] at above
  simp [Enrolment.project, bindingMatches, stamped, Except.toOption, above, local_, bound, same_user]

theorem matching_enrolled {e : Enrolment} {projects more : List Project} {p : Project} (local_ : e.reporting = false)
    (same : e.resolved = fs ∧ e.bound = fs ∧ e.stamped = fs) (is : e.enrolled L projects = .ok (more, p)) (q : Project)
    (matched : matching L fs more cwd = some q) (reporting : q.reporting = true) :
    matching L fs projects cwd = some q := by
  obtain ⟨root, user', git', filesystem_id, checked, stamped, rfl⟩ := enrolled_eq is
  obtain ⟨path, user, git, resolved, known, linked, best⟩ := matching_eq matched
  let key := (componentsOf root, user')
  let make := e.project L root user' git' filesystem_id
  have absent : governs L fs user path git (make (projects.find? (·.key = key))) = false := by
    by_contra governed
    have listed := made_enrolInto key make projects
    have greatest := (maxByRank_greatest best).2 _ (List.mem_filter.mpr ⟨listed, by simpa using governed⟩)
    have low : (make (projects.find? (·.key = key))).reporting = false := local_
    simp [rankLe, rank, reporting, low] at greatest
  have gone : ∀ old, projects.find? (·.key = key) = some old → governs L fs user path git old = false := by
    intro old found
    by_contra governed
    rw [found] at absent
    have governed_ : governs L fs user path git (make (some old)) = true :=
      governs_enrolled local_ same checked stamped (by simpa using List.find?_some found) (by simpa using governed)
    exact absurd governed_ (by rw [absent]; exact Bool.false_ne_true)
  rw [filter_enrolInto absent gone] at best
  unfold matching
  rw [resolved, known]
  dsimp only
  rw [linked]
  exact best

theorem keys_enrolInto {key : Components × UInt32} {make : Option Project → Project} (keyed : ∀ old, (make old).key = key)
    {projects : List Project} (unique : (projects.map Project.key).Nodup) :
    ((enrolInto key make projects).1.map Project.key).Nodup := by
  have keys : (enrolInto key make projects).1.map Project.key =
      if key ∈ projects.map Project.key then projects.map Project.key else projects.map Project.key ++ [key] := by
    clear unique
    induction projects with
    | nil => simp [enrolInto, keyed]
    | cons p rest ih =>
      rw [enrolInto]
      by_cases same : p.key = key
      · simp [same, keyed]
      · rw [if_neg same, List.map_cons, ih, List.map_cons]
        by_cases later : key ∈ rest.map Project.key
        · rw [if_pos later, if_pos (List.mem_cons_of_mem _ later)]
        · rw [if_neg later, if_neg (by simp only [List.mem_cons, not_or]; exact ⟨Ne.symm same, later⟩), List.cons_append]
  rw [keys]
  split
  · exact unique
  · rename_i absent
    exact List.nodup_append.mpr ⟨unique, List.nodup_singleton _, by
      rintro _ listed _ here rfl
      rw [List.mem_singleton.mp here] at listed
      exact absent listed⟩

theorem mem_enrolInto {key : Components × UInt32} {make : Option Project → Project} {projects : List Project} {q : Project}
    (listed : q ∈ (enrolInto key make projects).1) : q ∈ projects ∨ (∃ old ∈ projects, old.key = key ∧ q = make (some old)) ∨
      q = make none ∧ key ∉ projects.map Project.key := by
  induction projects with
  | nil => exact .inr (.inr ⟨List.mem_singleton.mp listed, List.not_mem_nil⟩)
  | cons p rest ih =>
    rw [enrolInto] at listed
    by_cases same : p.key = key
    · rw [if_pos same] at listed
      rcases List.mem_cons.mp listed with rfl | later
      · exact .inr (.inl ⟨p, List.mem_cons_self, same, rfl⟩)
      · exact .inl (List.mem_cons_of_mem _ later)
    · rw [if_neg same] at listed
      rcases List.mem_cons.mp listed with rfl | later
      · exact .inl List.mem_cons_self
      · rcases ih later with before | ⟨old, among, rest_⟩ | ⟨made, absent⟩
        · exact .inl (List.mem_cons_of_mem _ before)
        · exact .inr (.inl ⟨old, List.mem_cons_of_mem _ among, rest_⟩)
        · refine .inr (.inr ⟨made, ?_⟩)
          simp only [List.map_cons, List.mem_cons, not_or]
          exact ⟨Ne.symm same, absent⟩

theorem key_project (e : Enrolment) (root : String) (user : UInt32) (git : Option String) (filesystem_id : String)
    (old : Option Project) : (e.project L root user git filesystem_id old).key = (componentsOf root, user) := by
  simp only [Project.key, Enrolment.project]

theorem enrol_eq {e : Enrolment} {home : Home} {stages : List Home} {p : Project} (is : enrol L e home = .ok (stages, p)) :
    ∃ registry more, read L home = .ok registry ∧ e.enrolled L (registry.getD []) = .ok (more, p) ∧
      stages = [{ home with marker := true }, stored more] := by
  unfold enrol at is
  cases found : read L home with
  | error =>
    rw [found] at is
    cases is
  | ok registry =>
    rw [found] at is
    cases enrolled : e.enrolled L (registry.getD []) with
    | error =>
      simp only [bind, Except.bind, enrolled] at is
      cases is
    | ok made =>
      simp only [bind, Except.bind, enrolled] at is
      cases is
      exact ⟨registry, made.1, rfl, enrolled, rfl⟩

theorem read_marked {home : Home} {registry : Option (List Project)} (is : read L home = .ok registry) :
    read L { home with marker := true } = .ok (some (registry.getD [])) := by
  unfold read at is ⊢
  cases file : home.registry with
  | none =>
    rw [file] at is
    cases is
    by_cases marked : home.marker = true <;> simp [marked]
  | some bytes =>
    rw [file] at is
    dsimp only at is ⊢
    split at is
    · cases is
    · split at is
      · cases is
        rfl
      · cases is

def Unique (L : Libraries) (home : Home) : Prop :=
  ∀ projects, read L home = .ok (some projects) → (projects.map Project.key).Nodup

theorem unique_marked {home : Home} {registry : Option (List Project)} (unique : Unique L home)
    (is : read L home = .ok registry) : ((registry.getD []).map Project.key).Nodup := by
  cases registry with
  | none => exact List.nodup_nil
  | some projects => exact unique projects is

theorem enrol_stage (lawful : L.Lawful) {e : Enrolment} {home next : Home} {before after : List Home} {p : Project}
    (unique : Unique L home) (is : enrol L e home = .ok (before ++ next :: after, p)) :
    ∃ projects, read L next = .ok (some projects) ∧ next.marker = true ∧ (projects.map Project.key).Nodup := by
  obtain ⟨registry, more, found, enrolled, stages⟩ := enrol_eq is
  have marked := unique_marked unique found
  obtain ⟨root, user, git, filesystem_id, _, _, made⟩ := enrolled_eq enrolled
  have here : next ∈ [{ home with marker := true }, stored more] := by
    rw [← stages]
    simp
  rcases List.mem_cons.mp here with rfl | here
  · exact ⟨_, read_marked found, rfl, marked⟩
  · rw [List.mem_singleton.mp here]
    refine ⟨more, read_stored lawful more, rfl, ?_⟩
    rw [made]
    exact keys_enrolInto (fun old => key_project e root user git filesystem_id old) marked

theorem replay_selects (lawful : L.Lawful) {start home : Home} (unique : Unique L start) {log : List Enrolment}
    (replay : Replay (rewriter L) (fun _ _ => True) start log home) : Unique L home ∧
      (log ≠ [] → home.marker = true ∧ ∃ projects, read L home = .ok (some projects)) := by
  refine replay.keeps (I := fun log home => Unique L home ∧
    (log ≠ [] → home.marker = true ∧ ∃ projects, read L home = .ok (some projects))) ⟨unique, (absurd rfl ·)⟩ ?_
  intro log base e before next after p ⟨unique, _⟩ _ rewrote
  obtain ⟨projects, found, marked, keys⟩ := enrol_stage lawful unique rewrote
  refine ⟨fun others found' => ?_, fun _ => ⟨marked, projects, found⟩⟩
  rw [← Option.some.inj (Except.ok.inj (found.symm.trans found'))]
  exact keys

def SameIds (before after : List Project) : Prop :=
  ∀ p ∈ before, ∀ q ∈ after, p.key = q.key → p.binding = q.binding → p.id = q.id

theorem sameIds_self {projects : List Project} (unique : (projects.map Project.key).Nodup) : SameIds projects projects :=
  fun _ first _ second same _ => by rw [List.inj_on_of_nodup_map unique first second same]

theorem sameIds_enrolled {e : Enrolment} {projects more : List Project} {made : Project}
    (unique : (projects.map Project.key).Nodup) (is : e.enrolled L projects = .ok (more, made)) : SameIds projects more := by
  obtain ⟨root, user, git, filesystem_id, _, _, rfl⟩ := enrolled_eq is
  intro p first q second key binding
  rcases mem_enrolInto second with before | ⟨old, among, key_, rfl⟩ | ⟨rfl, absent⟩
  · exact sameIds_self unique p first q before key binding
  · have same : p = old := List.inj_on_of_nodup_map unique first among (key.trans key_.symm)
    subst same
    have kept : p.binding = Directory.binding e.bound L.toHashing root user git p.nonce := binding
    simp [Enrolment.project, Option.filter, kept]
  · exact absurd (List.mem_map.mpr ⟨p, first, key⟩) absent

theorem enrolments_select (lawful : L.Lawful) {Pid : Type} [DecidableEq Pid] {start : Home} (unique : Unique L start)
    (acts : List (Act Pid Enrolment String)) :
    let s := runWith (step (rewriter L)) (System.start start) acts
    (∀ projects, read L s.content = .ok (some projects) → (projects.map Project.key).Nodup) ∧
    (s.log ≠ [] → s.content.marker = true ∧ ∃ projects, read L s.content = .ok (some projects)) ∧
    ∀ act before after, read L s.content = .ok (some before) →
      read L (step (rewriter L) s act).content = .ok (some after) → SameIds before after := by
  intro s
  have sound : Sound (rewriter L) (fun _ _ => True) start s := sound_run (.of_forall drawn_any _ _)
  obtain ⟨one, selects⟩ := replay_selects lawful unique sound.replay
  refine ⟨one, selects, fun act before after found found' => ?_⟩
  rcases sound.content act with same | ⟨earlier, e, base, written, left, answer, replay, rewrote, last⟩
  · rw [same, found] at found'
    rw [← Option.some.inj (Except.ok.inj found')]
    exact sameIds_self (one before found)
  · have base_one := (replay_selects lawful unique replay).1
    obtain ⟨registry, more, read_, enrolled, stages⟩ := enrol_eq rewrote
    have marked := read_marked read_
    cases written with
    | nil =>
      simp only [List.getLast?_singleton, Option.some.injEq] at last
      simp only [List.nil_append, List.cons.injEq] at stages
      rw [stages.1, marked] at found'
      rw [last, found] at read_
      cases read_
      rw [← Option.some.inj (Except.ok.inj found')]
      exact sameIds_self (one before found)
    | cons first rest =>
      obtain ⟨rfl, rfl, after_⟩ : first = { base with marker := true } ∧ rest = [] ∧
          (step (rewriter L) s act).content = stored more := by
        cases rest with
        | nil =>
          simp only [List.cons_append, List.nil_append, List.cons.injEq] at stages
          exact ⟨stages.1, rfl, stages.2.1⟩
        | cons => simp at stages
      rw [after_, read_stored lawful] at found'
      have here : s.content = { base with marker := true } := (Option.some.inj last).symm
      rw [here, marked] at found
      rw [← Option.some.inj (Except.ok.inj found), ← Option.some.inj (Except.ok.inj found')]
      exact sameIds_enrolled (unique_marked base_one read_) enrolled

/-! ### What is lost or added -/

/-- A home that adopted directory selection: what its files' loss and a project added make of a directory. -/
structure Steady (L : Libraries) (fs : FileSystem) (edge : Edge) (source : Source) (cwd : String) : Prop where
  registry_lost : reports L fs { edge with home := { edge.home with registry := none } } source cwd = false
  registry_spoilt : ∀ bytes, (∀ projects, read L { edge.home with registry := some bytes } ≠ .ok (some projects)) →
    reports L fs { edge with home := { edge.home with registry := some bytes } } source cwd = false
  marker_lost : edge.home.registry ≠ none →
    reports L fs { edge with home := { edge.home with marker := false } } source cwd = reports L fs edge source cwd
  approvals_lost : ∀ fewer : Option (List Value), (∀ approval ∈ fewer.getD [], approval ∈ edge.approvals.getD []) →
    reports L fs { edge with approvals := fewer } source cwd = true → reports L fs edge source cwd = true
  local_added : ∀ (e : Enrolment) registry more p, e.reporting = false → e.resolved = fs ∧ e.bound = fs ∧ e.stamped = fs →
    read L edge.home = .ok registry → e.enrolled L (registry.getD []) = .ok (more, p) →
    reports L fs { edge with home := stored more } source cwd = true → reports L fs edge source cwd = true

theorem read_selected {home : Home} {registry : Option (List Project)} (marked : home.marker = true)
    (is : read L home = .ok registry) : ∃ projects, registry = some projects := by
  unfold read at is
  split at is
  · split at is
    · cases is
    · split at is <;> cases is
      exact ⟨_, rfl⟩
  · rw [marked] at is
    cases is
    exact ⟨_, rfl⟩

theorem reports_read (after : reports L fs edge source cwd = true) : ∃ registry, read L edge.home = .ok registry := by
  unfold reports Selection.read at after
  cases is : read L edge.home with
  | error =>
    rw [is] at after
    cases after
  | ok registry => exact ⟨registry, rfl⟩

theorem steady (lawful : L.Lawful) (marked : edge.home.marker = true) : Steady L fs edge source cwd := by
  refine ⟨?_, fun bytes spoilt => ?_, fun there => ?_, fun fewer within after => ?_,
    fun e registry more p local_ same found enrolled after => ?_⟩
  · by_contra after
    rw [Bool.not_eq_false] at after
    have empty : read L { edge.home with registry := none } = .ok (some []) := by simp [read, marked]
    obtain ⟨_, p, _, _, matched, _⟩ := (reports_iff empty).mp after
    obtain ⟨_, _, _, _, _, _, best⟩ := matching_eq matched
    cases best
  · by_contra after
    rw [Bool.not_eq_false] at after
    obtain ⟨registry, found⟩ := reports_read after
    obtain ⟨projects, rfl⟩ := read_selected (by exact marked) found
    exact spoilt projects found
  · obtain ⟨bytes, is⟩ := Option.ne_none_iff_exists'.mp there
    have same : read L { edge.home with marker := false } = read L edge.home := by simp only [read, is]
    unfold reports Selection.read
    dsimp only
    rw [same]
  · obtain ⟨registry, found⟩ := reports_read after
    obtain ⟨projects, rfl⟩ := read_selected marked found
    exact reports_of found found rfl within (fun _ matched _ => matched) after
  · obtain ⟨projects, rfl⟩ := read_selected marked found
    have stored_ : read L ({ edge with home := stored more } : Edge).home = .ok (some more) := read_stored lawful more
    exact reports_of found stored_ rfl (fun _ listed => listed) (matching_enrolled local_ same enrolled) after

variable (L)

theorem directory_consent (lawful : L.Lawful) :
    (∀ fs projects cwd p q, p ∈ projects → Vetoes L fs cwd p → matching L fs projects cwd = some q → q.reporting = false) ∧
    (∀ fs projects cwd q, matching L fs projects cwd = some q → q.reporting = true →
      ∃ path root git, selected fs cwd = .ok path ∧ selected fs q.root = .ok root ∧
        git_identity fs (componentsOf path) = .ok git ∧ git_identity fs (componentsOf root) = .ok git) ∧
    (∀ (Pid : Type) [DecidableEq Pid] start, Unique L start → ∀ acts : List (Act Pid Enrolment String),
      let s := runWith (step (rewriter L)) (System.start start) acts
      (∀ projects, read L s.content = .ok (some projects) → (projects.map Project.key).Nodup) ∧
      (s.log ≠ [] → s.content.marker = true ∧ ∃ projects, read L s.content = .ok (some projects)) ∧
      ∀ act before after, read L s.content = .ok (some before) →
        read L (step (rewriter L) s act).content = .ok (some after) → SameIds before after) ∧
    ∀ fs edge source cwd, edge.home.marker = true → Steady L fs edge source cwd :=
  ⟨fun _ _ _ _ _ listed vetoes matched => matching_vetoed listed vetoes matched,
    fun _ _ _ _ matched reports => matching_worktree matched reports,
    fun _ _ _ unique acts => enrolments_select lawful unique acts, fun _ _ _ _ marked => steady lawful marked⟩

def sampleLibraries : Libraries where
  write_number n := n
  sha256_digest bytes := marked bytes
  from_slice bytes := match readDocument recursionLimit bytes with
    | some value => .ok value
    | none => .error "expected value"
  mismatch _ := "missing field"

/-- One directory, `/work`, in no worktree. -/
def sampleFiles : FileSystem where
  canonicalize path := if path = ["/", "work"] then .ok "/work" else .error "No such file or directory"
  is_dir path := path = ["/", "work"]
  is_file _ := false
  read_to_string _ := .ok none
  filesystem_id _ := .ok "1:2"
  unicode _ := true
  trim s := s
  trusted_os_user := some 501

def sampleProject : Project where
  id := "00000000-0000-4000-8000-000000000001"
  nonce := "00000000-0000-4000-8000-000000000002"
  root := "/work"
  filesystem_id := "1:2"
  name := "Work"
  os_user := 501
  git_common := none
  binding := binding sampleFiles sampleLibraries.toHashing "/work" 501 none "00000000-0000-4000-8000-000000000002"
  reporting := true

def sampleEdge : Edge := ⟨stored [sampleProject], .managed, none⟩

def sampleSource : Source := ⟨none, none, false, none⟩

inductive HomeFile where
  | registry
  | marker
  | approvals
  | deployment

def Edge.lose (edge : Edge) : HomeFile → Edge
  | .registry => { edge with home := { edge.home with registry := none } }
  | .marker => { edge with home := { edge.home with marker := false } }
  | .approvals => { edge with approvals := none }
  | .deployment => { edge with deployment := .absent }

/-- An edge without its deployment file is a local one, whose own selection is enough. -/
theorem deployment_lost : ¬∀ (file : HomeFile) (cwd : String), sampleEdge.home.marker = true →
    reports sampleLibraries sampleFiles (sampleEdge.lose file) sampleSource cwd = true →
    reports sampleLibraries sampleFiles sampleEdge sampleSource cwd = true := by
  intro kept
  have after : reports sampleLibraries sampleFiles (sampleEdge.lose .deployment) sampleSource "/work" = true := by
    decide +kernel
  have before : reports sampleLibraries sampleFiles sampleEdge sampleSource "/work" = false := by decide +kernel
  rw [kept .deployment "/work" rfl after] at before
  cases before

theorem sampleLibraries_lawful : sampleLibraries.Lawful := by
  constructor
  intro value shallow
  simp only [sampleLibraries, readDocument_pretty, if_pos shallow]

theorem directory_consent_sample : Steady sampleLibraries sampleFiles sampleEdge sampleSource "/work" :=
  (directory_consent sampleLibraries sampleLibraries_lawful).2.2.2 sampleFiles sampleEdge sampleSource "/work" rfl

end CommonMeasure.Directory
