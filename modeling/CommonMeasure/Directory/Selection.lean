import CommonMeasure.Directory.Registry

namespace CommonMeasure.Directory

open Json Locked

variable {L : Libraries} {fs : FileSystem}

theorem Project.ofValue_toValue (p : Project) : Project.ofValue p.toValue = some p := by
  have user : asU32 (.number (.ofNat p.os_user.toNat)) = some p.os_user := by
    have small := p.os_user.toNat_lt
    rw [asU32, asU64_ofNat (by omega)]
    simp [small]
  obtain ⟨id, nonce, root, filesystem_id, name, os_user, git_common, binding, reporting⟩ := p
  have field_ : field [("id", .string id), ("nonce", .string nonce), ("root", .string root),
      ("filesystem_id", .string filesystem_id), ("name", .string name), ("os_user", .number (.ofNat os_user.toNat)),
      ("git_common", orNull git_common), ("binding", .string binding), ("reporting", .bool reporting)] "os_user" =
    some (.number (.ofNat os_user.toNat)) := rfl
  cases git_common <;> simp only [Project.toValue, Project.ofValue, field_, Option.bind_some, user] <;> rfl

theorem ofDocument_document (projects : List Project) : ofDocument (document projects) = some projects := by
  have each : (projects.map Project.toValue).mapM Project.ofValue = some projects := by
    induction projects with
    | nil => rfl
    | cons p more ih => simp [Project.ofValue_toValue, ih]
  exact each

theorem depth_document (projects : List Project) : (document projects).depth ≤ 3 := by
  have items : depthItems (projects.map Project.toValue) ≤ 1 := by
    induction projects with
    | nil => exact Nat.zero_le _
    | cons p more ih =>
      have first : p.toValue.depth = 1 := by
        obtain ⟨_, _, _, _, _, _, git_common, _, _⟩ := p
        cases git_common <;> rfl
      rw [List.map_cons, depthItems, first]
      omega
  simp only [document, Value.depth, depthMembers]
  omega

theorem read_stored (lawful : L.Lawful) (projects : List Project) : read L (stored projects) = .ok (some projects) := by
  have shallow := depth_document projects
  have back := lawful.read_pretty (document projects) (by unfold recursionLimit; omega)
  simp only [read, stored, back, ofDocument_document]

theorem maxByRank_greatest {ps : List Project} {q : Project} (is : maxByRank ps = some q) :
    q ∈ ps ∧ ∀ p ∈ ps, rankLe (rank p) (rank q) = true := by
  have total : ∀ a b : Nat × Nat, rankLe a b = true ∨ rankLe b a = true := by
    intro a b
    simp only [rankLe, Bool.or_eq_true, Bool.and_eq_true, decide_eq_true_eq]
    omega
  have trans : ∀ a b c : Nat × Nat, rankLe a b = true → rankLe b c = true → rankLe a c = true := by
    intro a b c
    simp only [rankLe, Bool.or_eq_true, Bool.and_eq_true, decide_eq_true_eq]
    omega
  induction ps generalizing q with
  | nil => cases is
  | cons p rest ih =>
    rw [maxByRank] at is
    cases best : maxByRank rest with
    | none =>
      rw [best] at is
      cases is
      refine ⟨List.mem_cons_self, fun other listed => ?_⟩
      cases rest with
      | nil => rw [List.mem_singleton.mp listed]; exact (total _ _).elim id id
      | cons first more =>
        rw [maxByRank] at best
        split at best <;> (try split at best) <;> cases best
    | some top =>
      obtain ⟨among, greatest⟩ := ih best
      rw [best] at is
      dsimp only at is
      split at is
      · rename_i below
        cases is
        exact ⟨List.mem_cons_of_mem _ among, List.forall_mem_cons.mpr ⟨below, greatest⟩⟩
      · rename_i above
        cases is
        have beaten := (total (rank p) (rank top)).resolve_left above
        exact ⟨List.mem_cons_self, List.forall_mem_cons.mpr
          ⟨(total _ _).elim id id, fun other listed => trans _ _ _ (greatest other listed) beaten⟩⟩

theorem matching_eq {projects : List Project} {cwd : String} {q : Project} (is : matching L fs projects cwd = some q) :
    ∃ path user git, selected fs cwd = .ok path ∧ fs.trusted_os_user = some user ∧
      git_identity fs (componentsOf path) = .ok git ∧ maxByRank (projects.filter (governs L fs user path git)) = some q := by
  unfold matching at is
  cases resolved : selected fs cwd with
  | error =>
    rw [resolved] at is
    cases is
  | ok path =>
    cases known : fs.trusted_os_user with
    | none =>
      rw [resolved, known] at is
      cases is
    | some user =>
      rw [resolved, known] at is
      dsimp only at is
      cases linked : git_identity fs (componentsOf path) with
      | error =>
        rw [linked] at is
        cases is
      | ok git =>
        rw [linked] at is
        exact ⟨path, user, git, rfl, rfl, linked, is⟩

def Vetoes (L : Libraries) (fs : FileSystem) (cwd : String) (p : Project) : Prop :=
  p.reporting = false ∧ ∃ user path root root_git, fs.trusted_os_user = some user ∧ selected fs cwd = .ok path ∧
    selected fs p.root = .ok root ∧ componentsOf root = componentsOf p.root ∧
    git_identity fs (componentsOf root) = .ok root_git ∧ bindingMatches L fs user p (root_git.map Prod.fst) = true ∧
    componentsOf p.root <+: componentsOf path

theorem Vetoes.governs {cwd path : String} {p : Project} {user : UInt32} {git : Option (String × Components)}
    (vetoes : Vetoes L fs cwd p) (resolved : selected fs cwd = .ok path) (user_ : fs.trusted_os_user = some user) :
    governs L fs user path git p = true := by
  obtain ⟨local_, user', path', root, root_git, same, there, root_, again, git_, matches_, above⟩ := vetoes
  cases resolved.symm.trans there
  cases user_.symm.trans same
  unfold Directory.governs
  rw [root_]
  dsimp only
  rw [git_]
  simp [again, matches_, local_, List.isPrefixOf_iff_prefix.mpr above]

theorem matching_vetoed {projects : List Project} {cwd : String} {p q : Project} (listed : p ∈ projects)
    (vetoes : Vetoes L fs cwd p) (is : matching L fs projects cwd = some q) : q.reporting = false := by
  obtain ⟨path, user, git, resolved, user_, _, best⟩ := matching_eq is
  have greatest := (maxByRank_greatest best).2 p
    (List.mem_filter.mpr ⟨listed, vetoes.governs resolved user_⟩)
  by_contra reports
  rw [Bool.not_eq_false] at reports
  simp [rankLe, rank, reports, vetoes.1] at greatest

theorem matching_worktree {projects : List Project} {cwd : String} {q : Project}
    (is : matching L fs projects cwd = some q) (reports : q.reporting = true) :
    ∃ path root git, selected fs cwd = .ok path ∧ selected fs q.root = .ok root ∧
      git_identity fs (componentsOf path) = .ok git ∧ git_identity fs (componentsOf root) = .ok git := by
  obtain ⟨path, user, git, resolved, _, git_, best⟩ := matching_eq is
  have governed := (List.mem_filter.mp (maxByRank_greatest best).1).2
  unfold Directory.governs at governed
  split at governed
  · cases governed
  rename_i root root_
  split at governed
  · cases governed
  rename_i root_git git'
  simp only [reports, Bool.not_true, Bool.false_or, Bool.and_eq_true, decide_eq_true_eq] at governed
  exact ⟨path, root, git, resolved, root_, git_, governed.2 ▸ git'⟩

end CommonMeasure.Directory
