import CommonMeasure.Declarations.Forms
import CommonMeasure.Foundation.Closures

/-!
# The readings of a page

`matching_target_readings_reached`: the readings of a request target are the matching forms of what its path reaches by the
four operations, each with the query unchanged, and there are too many exactly when more paths than the cap are reached.
-/

namespace CommonMeasure.Declarations

variable {Url : Type} (u : UrlCrate Url)

section

variable {cap : Nat} {current : Text} {paths found : List Text} {ops : List (Text → Text)}

theorem reach_ok (nodup : paths.Nodup) (few : paths.length ≤ cap) (read : reach cap current ops paths = .ok found) :
    ∃ more, found = paths ++ more ∧ found.Nodup ∧ found.length ≤ cap ∧
      (∀ a ∈ more, ∃ operation ∈ ops, a = operation current) ∧ ∀ operation ∈ ops, operation current ∈ found := by
  induction ops generalizing paths with
  | nil =>
    obtain rfl := Except.ok.inj read
    exact ⟨[], by simp [nodup, few]⟩
  | cons operation ops ih =>
    rw [reach] at read
    split at read
    · rename_i known
      obtain ⟨more, rfl, nodup, few, new, all⟩ := ih nodup few read
      refine ⟨more, rfl, nodup, few, ?_, ?_⟩
      · intro a member
        obtain ⟨other, listed, same⟩ := new a member
        exact ⟨other, List.mem_cons_of_mem _ listed, same⟩
      · exact List.forall_mem_cons.mpr ⟨List.mem_append_left _ known, all⟩
    · rename_i fresh
      split at read
      · cases read
      · rename_i room
        have grown : (paths ++ [operation current]).Nodup := List.nodup_append.mpr ⟨nodup, by simp, by
          intro a old b last same
          rw [List.mem_singleton.mp last] at same
          exact fresh (same ▸ old)⟩
        obtain ⟨more, rfl, nodup, few, new, all⟩ := ih grown (by simp; omega) read
        refine ⟨operation current :: more, by simp, nodup, few, ?_, ?_⟩
        · intro a member
          rcases List.mem_cons.mp member with rfl | later
          · exact ⟨operation, List.mem_cons_self, rfl⟩
          · obtain ⟨other, listed, same⟩ := new a later
            exact ⟨other, List.mem_cons_of_mem _ listed, same⟩
        · exact List.forall_mem_cons.mpr ⟨by simp, all⟩

theorem reach_error (nodup : paths.Nodup) {error : TooManyReadings} (read : reach cap current ops paths = .error error) :
    error = ⟨cap⟩ ∧ ∃ found : List Text, found.Nodup ∧ cap < found.length ∧
      ∀ a ∈ found, a ∈ paths ∨ ∃ operation ∈ ops, a = operation current := by
  induction ops generalizing paths with
  | nil => cases read
  | cons operation ops ih =>
    have later {a : Text} (one : a ∈ paths ∨ ∃ other ∈ ops, a = other current) :
        a ∈ paths ∨ ∃ other ∈ operation :: ops, a = other current := by
      rcases one with old | ⟨other, listed, same⟩
      · exact Or.inl old
      · exact Or.inr ⟨other, List.mem_cons_of_mem _ listed, same⟩
    rw [reach] at read
    split at read
    · obtain ⟨same, found, distinct, many, from_⟩ := ih nodup read
      exact ⟨same, found, distinct, many, fun a member => later (from_ a member)⟩
    · rename_i fresh
      have grown : (paths ++ [operation current]).Nodup := List.nodup_append.mpr ⟨nodup, by simp, by
        intro a old b last same
        rw [List.mem_singleton.mp last] at same
        exact fresh (same ▸ old)⟩
      have new {a : Text} (member : a ∈ paths ++ [operation current]) :
          a ∈ paths ∨ ∃ other ∈ operation :: ops, a = other current := by
        rcases List.mem_append.mp member with old | last
        · exact Or.inl old
        · exact Or.inr ⟨operation, List.mem_cons_self, List.mem_singleton.mp last⟩
      split at read
      · rename_i full
        exact ⟨(Except.error.inj read).symm, _, grown, by simp; omega, fun a member => new member⟩
      · obtain ⟨same, found, distinct, many, from_⟩ := ih grown read
        refine ⟨same, found, distinct, many, fun a member => ?_⟩
        rcases from_ a member with old | later_
        · exact new old
        · exact later (Or.inr later_)

end

section

variable {cap : Nat} {path : Text} {found : List Text}

theorem walk_spec {steps next : Nat} {paths : List Text} (list : Worklist (operations u) path next paths)
    (few : paths.length ≤ cap) (enough : cap ≤ steps + next) :
    match walk u cap steps next paths with
    | .ok found => Worklist (operations u) path found.length found ∧ found.length ≤ cap
    | .error error => error = ⟨cap⟩ ∧ ReachesMore (operations u) path cap := by
  induction steps generalizing next paths with
  | zero =>
    have worked := list.worked
    rw [List.take_of_length_le (by omega)] at worked
    exact ⟨⟨list.first, list.nodup, list.sound, by simpa using worked⟩, few⟩
  | succ steps ih =>
    rw [walk]
    cases at_ : paths[next]? with
    | none =>
      have worked := list.worked
      rw [List.take_of_length_le (List.getElem?_eq_none_iff.mp at_)] at worked
      exact ⟨⟨list.first, list.nodup, list.sound, by simpa using worked⟩, few⟩
    | some current =>
      simp only
      cases read : reach cap current (operations u) paths with
      | error error =>
        obtain ⟨rfl, others, distinct, many, from_⟩ := reach_error list.nodup read
        refine ⟨rfl, others, distinct, many, ?_⟩
        intro a member
        rcases from_ a member with old | ⟨operation, listed, rfl⟩
        · exact list.sound a old
        · exact (list.sound current (List.mem_of_getElem? at_)).step listed
      | ok paths =>
        obtain ⟨more, rfl, nodup, few, new, all⟩ := reach_ok list.nodup few read
        exact ih (list.work at_ nodup new all) few (by omega)

end

theorem forms_spec (form : Text → Text) (paths : List Text) (start : List Text) (nodup : start.Nodup) :
    let readings := paths.foldl (fun readings path => if form path ∈ readings then readings else readings ++ [form path]) start
    readings.Nodup ∧ (∃ more, readings = start ++ more) ∧
      ∀ reading, reading ∈ readings ↔ reading ∈ start ∨ ∃ path ∈ paths, reading = form path := by
  induction paths generalizing start with
  | nil => exact ⟨nodup, ⟨[], by simp⟩, by simp⟩
  | cons path paths ih =>
    dsimp only
    rw [List.foldl_cons]
    split
    · rename_i known
      obtain ⟨distinct, more, all⟩ := ih start nodup
      refine ⟨distinct, more, ?_⟩
      intro reading
      rw [all]
      constructor
      · rintro (old | ⟨other, listed, rfl⟩)
        · exact Or.inl old
        · exact Or.inr ⟨other, List.mem_cons_of_mem _ listed, rfl⟩
      · rintro (old | ⟨other, listed, rfl⟩)
        · exact Or.inl old
        · rcases List.mem_cons.mp listed with rfl | later
          · exact Or.inl known
          · exact Or.inr ⟨other, later, rfl⟩
    · rename_i fresh
      have grown : (start ++ [form path]).Nodup := List.nodup_append.mpr ⟨nodup, by simp, by
        intro a old b last same
        rw [List.mem_singleton.mp last] at same
        exact fresh (same ▸ old)⟩
      obtain ⟨distinct, ⟨more, same⟩, all⟩ := ih _ grown
      refine ⟨distinct, ⟨form path :: more, by simpa using same⟩, ?_⟩
      intro reading
      rw [all, List.mem_append, List.mem_singleton]
      constructor
      · rintro ((old | rfl) | ⟨other, listed, rfl⟩)
        · exact Or.inl old
        · exact Or.inr ⟨path, List.mem_cons_self, rfl⟩
        · exact Or.inr ⟨other, List.mem_cons_of_mem _ listed, rfl⟩
      · rintro (old | ⟨other, listed, rfl⟩)
        · exact Or.inl (Or.inl old)
        · rcases List.mem_cons.mp listed with rfl | later
          · exact Or.inl (Or.inr rfl)
          · exact Or.inr ⟨other, later, rfl⟩

def target_path (target : Text) : Text := target.takeWhile (· ≠ '?')

def target_query (target : Text) : Text := target.dropWhile (· ≠ '?')

theorem target_split (target : Text) : target_path target ++ target_query target = target :=
  List.takeWhile_append_dropWhile

theorem matching_target_readings_spec (target : Text) :
    match matching_target_readings u target with
    | .ok readings => ∃ paths, Worklist (operations u) (target_path target) paths.length paths ∧
        paths.length ≤ MAX_PAGE_READINGS ∧ readings.Nodup ∧ readings.head? = some (matching_target target) ∧
        ∀ reading, reading ∈ readings ↔ ∃ path ∈ paths, reading = matching_target (path ++ target_query target)
    | .error error =>
      error = ⟨MAX_PAGE_READINGS⟩ ∧ ReachesMore (operations u) (target_path target) MAX_PAGE_READINGS := by
  have walked := walk_spec u (Worklist.begin (operations u) (target_path target)) (by simp [MAX_PAGE_READINGS])
    (Nat.le_add_right MAX_PAGE_READINGS 0)
  cases read : walk u MAX_PAGE_READINGS MAX_PAGE_READINGS 0 [target_path target] with
  | error error =>
    have failed : matching_target_readings u target = .error error := by
      rw [matching_target_readings, readings_within, ← target_path, read]
      rfl
    rw [read] at walked
    rw [failed]
    exact walked
  | ok paths =>
    have readings : matching_target_readings u target = .ok (paths.foldl (fun readings path =>
        if matching_target (path ++ target_query target) ∈ readings then readings
        else readings ++ [matching_target (path ++ target_query target)]) []) := by
      rw [matching_target_readings, readings_within, ← target_path, read]
      rfl
    rw [read] at walked
    obtain ⟨list, few⟩ := walked
    rw [readings]
    refine ⟨paths, list, few, ?_⟩
    have forms := forms_spec (fun path => matching_target (path ++ target_query target)) paths [] (by simp)
    refine ⟨forms.1, ?_, by simpa using forms.2.2⟩
    cases paths with
    | nil => cases list.first
    | cons first paths =>
      have is : first = target_path target := Option.some.inj list.first
      have forms := forms_spec (fun path => matching_target (path ++ target_query target)) paths [matching_target target]
        (by simp)
      obtain ⟨_, ⟨more, same⟩, _⟩ := forms
      have begins : (first :: paths).foldl (fun readings path =>
          if matching_target (path ++ target_query target) ∈ readings then readings
          else readings ++ [matching_target (path ++ target_query target)]) [] = [matching_target target] ++ more := by
        rw [← same, List.foldl_cons, is, target_split]
        simp
      exact (congrArg List.head? begins).trans rfl

/-- The readings are the forms of what the path reaches, each with the query; there are too many exactly when more paths than
the cap are reached. -/
theorem matching_target_readings_reached (target : Text) :
    (∀ readings, matching_target_readings u target = .ok readings →
      readings.Nodup ∧ readings.head? = some (matching_target target) ∧
      (∀ reading, reading ∈ readings ↔ ∃ path, Reached (operations u) (target_path target) path ∧
        reading = matching_target (path ++ target_query target)) ∧
      ∃ paths : List Text, (∀ path, path ∈ paths ↔ Reached (operations u) (target_path target) path) ∧
        (∀ reading, reading ∈ readings ↔ ∃ path ∈ paths, reading = matching_target (path ++ target_query target)) ∧
        ∀ path ∈ paths, ∀ operation ∈ operations u, operation path ∈ paths) ∧
    (∀ error, matching_target_readings u target = .error error → error = ⟨MAX_PAGE_READINGS⟩) ∧
    ((∃ error, matching_target_readings u target = .error error) ↔
      ReachesMore (operations u) (target_path target) MAX_PAGE_READINGS) := by
  have spec := matching_target_readings_spec u target
  cases read : matching_target_readings u target with
  | error error =>
    rw [read] at spec
    obtain ⟨rfl, many⟩ := spec
    refine ⟨nofun, ?_, fun _ => many, fun _ => ⟨_, rfl⟩⟩
    rintro error is
    exact (Except.error.inj is).symm
  | ok readings =>
    rw [read] at spec
    obtain ⟨paths, list, few, nodup, first, all⟩ := spec
    have complete {path : Text} : path ∈ paths ↔ Reached (operations u) (target_path target) path :=
      list.complete (Nat.le_refl _)
    refine ⟨?_, nofun, nofun, ?_⟩
    · intro others is
      obtain rfl := Except.ok.inj is
      refine ⟨nodup, first, ?_, paths, fun _ => complete, all, ?_⟩
      · intro reading
        simp only [all, complete]
      · intro path member operation listed
        exact complete.mpr ((complete.mp member).step listed)
    · intro many
      have more := (list.count (Nat.le_refl _)).mp many
      omega

end CommonMeasure.Declarations
