import CommonMeasure.Scopes.Policy

/-!
# What a resolution closes

`resolve` fails closed exactly where `Closes` says.
-/

namespace CommonMeasure.Scopes

open Admission (Constraint ContextEnvelope PolicyMode Ruling Texts)
open Directory (FileSystem Libraries Selection componentsOf)

variable {A : Type} {T : Texts} {L : Libraries} {fs : FileSystem} {document : PolicyDocument A} {cwd : Option String}

/-! ### Ownership -/

def PolicyScope.another (scope : PolicyScope) (name : String) : Prop := ∃ owner, scope.principal = some owner ∧ owner ≠ name

theorem withheld_from_isSome {scope : PolicyScope} {name : String} :
    (scope.withheld_from T name).isSome = true ↔ scope.another name := by
  unfold PolicyScope.withheld_from PolicyScope.another
  cases scope.principal with
  | none => simp
  | some owner => by_cases same : owner = name <;> simp [same]

def usable (T : Texts) (fs : FileSystem) (document : PolicyDocument A) (place : Option String) : Option PolicyScope :=
  (place.bind (document.scope_selecting fs)).filter fun scope => (scope.withheld_from T (document.name T)).isNone

theorem scope_usable (place : Option String) :
    (document.resolve_source T fs place).scope = (usable T fs document place).map (·.matcher) := rfl

theorem usable_some {place : Option String} {scope : PolicyScope} :
    usable T fs document place = some scope ↔
      place.bind (document.scope_selecting fs) = some scope ∧ ¬scope.another (document.name T) := by
  unfold usable
  rw [Option.filter_eq_some_iff, ← withheld_from_isSome, Option.isNone_iff_eq_none, Option.isSome_iff_ne_none, not_not]

def Unmet (T : Texts) (fs : FileSystem) (document : PolicyDocument A) (place : Option String) : Prop :=
  ∃ binding, document.binding T = some binding ∧ binding.require_scope = true ∧
    ∀ scope, place.bind (document.scope_selecting fs) = some scope → scope.principal ≠ some binding.principal

def SourceCloses (T : Texts) (fs : FileSystem) (document : PolicyDocument A) (place : Option String) : Prop :=
  (document.file.principals ≠ [] ∧ document.binding T = none) ∨
    (∃ scope, place.bind (document.scope_selecting fs) = some scope ∧ scope.another (document.name T)) ∨
      Unmet T fs document place

theorem bound_name {binding : PrincipalBinding A} (bound : document.binding T = some binding) :
    document.name T = binding.principal := by
  simp [PolicyDocument.name, bound]

theorem unmet_iff (place : Option String) {binding : PrincipalBinding A} (bound : document.binding T = some binding) :
    (binding.require_scope && !(usable T fs document place).any (·.principal = some binding.principal)) = true ↔
      Unmet T fs document place := by
  have name := bound_name bound
  rw [Bool.and_eq_true, Bool.not_eq_true', Option.any_eq_false]
  constructor
  · rintro ⟨required, none_⟩
    refine ⟨binding, bound, required, fun scope selects owned => ?_⟩
    have mine : ¬scope.another (document.name T) := by
      rintro ⟨owner, is, other⟩
      rw [owned, name] at *
      exact other (Option.some.inj is).symm
    simpa [owned] using none_ scope (usable_some.mpr ⟨selects, mine⟩)
  · rintro ⟨other, is, required, unowned⟩
    obtain rfl := Option.some.inj (bound.symm.trans is)
    refine ⟨required, fun scope used => ?_⟩
    simpa using unowned scope (usable_some.mp used).1

theorem source_closes (place : Option String) :
    (document.resolve_source T fs place).fail_closed.isSome = true ↔ SourceCloses T fs document place := by
  have unbound : (if (document.binding T).isNone && !document.file.principals.isEmpty then some (document.unbound T)
      else none).isSome = true ↔ document.file.principals ≠ [] ∧ document.binding T = none := by
    cases document.binding T <;> cases document.file.principals <;> simp
  have withheld : ((place.bind (document.scope_selecting fs)).bind
      (PolicyScope.withheld_from T · (document.name T))).isSome = true ↔
        ∃ scope, place.bind (document.scope_selecting fs) = some scope ∧ scope.another (document.name T) := by
    rw [Option.isSome_bind, Option.any_eq_true]
    simp only [withheld_from_isSome]
  have required : ((document.binding T).bind fun binding =>
      if binding.require_scope && !(usable T fs document place).any (·.principal = some binding.principal) then
        some ("principal " ++ T.debug binding.principal ++ " requires a matching principal-bound directory scope")
      else none).isSome = true ↔ Unmet T fs document place := by
    cases bound : document.binding T with
    | none => simp [Unmet, bound]
    | some binding =>
      rw [← unmet_iff place bound]
      simp only [Option.bind_some]
      split
      · rename_i holds
        simp [holds]
      · rename_i fails
        simp only [Option.isSome_none, Bool.false_eq_true, false_iff]
        exact fails
  unfold SourceCloses
  rw [← unbound, ← withheld, ← required]
  show (Option.or (Option.or _ _) _).isSome = true ↔ _
  rw [Option.isSome_or, Option.isSome_or, Bool.or_eq_true, Bool.or_eq_true, or_assoc]
  rfl

theorem check_matchers_distinct {source : String} : ∀ {scopes earlier : List PolicyScope} {u : Unit},
    check_matchers T source earlier scopes = .ok u → (earlier.map (·.matcher)).Nodup →
      ((earlier ++ scopes).map (·.matcher)).Nodup
  | [], earlier, _, _, distinct => by simpa using distinct
  | scope :: rest, earlier, u, passed, distinct => by
    unfold check_matchers at passed
    split at passed
    · cases passed
    · rename_i fresh
      have next : ((earlier ++ [scope]).map (·.matcher)).Nodup := by
        rw [List.map_append, List.map_singleton]
        refine List.nodup_append.mpr ⟨distinct, List.nodup_singleton _, ?_⟩
        rintro _ held _ here rfl
        rw [List.mem_singleton] at here
        obtain ⟨other, listed, is⟩ := List.mem_map.mp held
        exact fresh (List.any_eq_true.mpr ⟨other, listed, by simp [is, here]⟩)
      simpa using check_matchers_distinct passed next

theorem check_distinct {others : OtherChecks A} {source : String} {file : PolicyFile A}
    (accepted : check T others source file = .ok ()) :
    (file.scopes.map (·.matcher)).Nodup := by
  unfold check at accepted
  obtain ⟨_, _, accepted⟩ := bind_ok.mp accepted
  split at accepted
  · cases accepted
  · obtain ⟨_, matchers, _⟩ := bind_ok.mp accepted
    exact check_matchers_distinct matchers List.nodup_nil

theorem selecting_mem {place : Option String} {scope : PolicyScope}
    (selects : place.bind (document.scope_selecting fs) = some scope) :
    scope ∈ document.file.scopes := by
  obtain ⟨directory, _, found⟩ := Option.bind_eq_some_iff.mp selects
  exact List.mem_of_find?_eq_some found

theorem same_scope (distinct : (document.file.scopes.map (·.matcher)).Nodup) {a b : PolicyScope}
    (first : a ∈ document.file.scopes)
    (second : b ∈ document.file.scopes) (same : a.matcher = b.matcher) : a = b :=
  List.inj_on_of_nodup_map distinct first second same

def main_places (fs : FileSystem) (path : String) : List (Option String) :=
  match Directory.git_identity fs (componentsOf path) with
  | .ok (some (common, root)) =>
    if componentsOf common = root ++ [".git"] then []
    else ((in_main_worktree common root path).map fun original => some original |>.filter fs.unicode).toList
  | _ => []

def others (fs : FileSystem) (cwd : Option String) : List (Option String) :=
  (if cwd ≠ actual fs cwd then [cwd] else []) ++ ((canonical fs cwd).map (main_places fs)).getD []

/-- Another path of the directory selects a scope, and the directory itself does not select that scope. -/
def Conflicts (fs : FileSystem) (document : PolicyDocument A) (cwd place : Option String) (scope : PolicyScope) : Prop :=
  place.bind (document.scope_selecting fs) = some scope ∧ (actual fs cwd).bind (document.scope_selecting fs) ≠ some scope

theorem conflicts_iff (distinct : (document.file.scopes.map (·.matcher)).Nodup) {place : Option String}
    {resolved : SessionPolicy A}
    (is : resolved.scope = (document.resolve_source T fs (actual fs cwd)).scope) :
    document.conflicts T fs place resolved = true ↔
      ∃ scope, Conflicts fs document cwd place scope ∧ ¬scope.another (document.name T) := by
  unfold PolicyDocument.conflicts
  rw [is, Bool.and_eq_true, decide_eq_true_eq, scope_usable, scope_usable, Option.isSome_map]
  constructor
  · rintro ⟨differ, some_⟩
    obtain ⟨scope, used⟩ := Option.isSome_iff_exists.mp some_
    obtain ⟨selects, own⟩ := usable_some.mp used
    refine ⟨scope, ⟨selects, fun here => differ ?_⟩, own⟩
    rw [used, usable_some.mpr ⟨here, own⟩]
  · rintro ⟨scope, ⟨selects, apart⟩, own⟩
    have used := usable_some.mpr ⟨selects, own⟩
    refine ⟨fun same => ?_, by rw [used]; rfl⟩
    rw [used] at same
    obtain ⟨other, here, matcher⟩ := Option.map_eq_some_iff.mp same.symm
    have selected := (usable_some.mp here).1
    rw [same_scope distinct (selecting_mem selected) (selecting_mem selects) matcher] at selected
    exact apart selected

theorem through_link_scope (resolved : SessionPolicy A) : (document.through_link T fs cwd resolved).scope = resolved.scope := by
  unfold PolicyDocument.through_link
  split <;> rfl

theorem through_link_closes (resolved : SessionPolicy A) :
    (document.through_link T fs cwd resolved).fail_closed.isSome = true ↔
      resolved.fail_closed.isSome = true ∨ cwd ≠ actual fs cwd ∧ document.conflicts T fs cwd resolved = true := by
  unfold PolicyDocument.through_link
  split
  · rename_i conflict
    simpa using Or.inr (by simpa using conflict)
  · rename_i agree
    simp only [Bool.and_eq_true, decide_eq_true_eq] at agree
    simp [agree]

theorem in_worktree_closes (path : String) (resolved : SessionPolicy A) :
    (document.in_worktree T fs path resolved).fail_closed.isSome = true ↔
      resolved.fail_closed.isSome = true ∨ (∃ error, Directory.git_identity fs (componentsOf path) = .error error) ∨
        ∃ place ∈ main_places fs path, document.conflicts T fs place resolved = true := by
  unfold PolicyDocument.in_worktree main_places
  cases identity : Directory.git_identity fs (componentsOf path) with
  | error error => simp
  | ok found =>
    cases found with
    | none => simp
    | some pair =>
      obtain ⟨common, root⟩ := pair
      dsimp only
      by_cases own : componentsOf common = root ++ [".git"]
      · rw [if_pos own, if_pos own]
        simp
      · rw [if_neg own, if_neg own]
        cases place : in_main_worktree common root path with
        | none => simp
        | some original =>
          by_cases conflict : document.conflicts T fs (some original |>.filter fs.unicode) resolved = true
          · simp [conflict]
          · simp [conflict]

theorem selected_closes (resolved : SessionPolicy A) :
    (document.selected L fs cwd resolved).fail_closed = resolved.fail_closed := by
  unfold PolicyDocument.selected
  cases document.selection.registry <;> rfl

theorem closing_closes (resolved : SessionPolicy A) : resolved.closing.fail_closed = resolved.fail_closed := by
  unfold SessionPolicy.closing
  split <;> rfl

def Closes (T : Texts) (fs : FileSystem) (document : PolicyDocument A) (cwd : Option String) : Prop :=
  SourceCloses T fs document (actual fs cwd) ∨
    (∃ path error, canonical fs cwd = some path ∧ Directory.git_identity fs (componentsOf path) = .error error) ∨
      ∃ place ∈ others fs cwd, ∃ scope, Conflicts fs document cwd place scope ∧ ¬scope.another (document.name T)

theorem resolve_closes (distinct : (document.file.scopes.map (·.matcher)).Nodup) :
    (document.resolve T L fs cwd).fail_closed.isSome = true ↔ Closes T fs document cwd := by
  have linked := @through_link_closes _ T fs document cwd (document.resolve_source T fs (actual fs cwd))
  have kept := @through_link_scope _ T fs document cwd (document.resolve_source T fs (actual fs cwd))
  have spelled : cwd ≠ actual fs cwd ∧ document.conflicts T fs cwd (document.resolve_source T fs (actual fs cwd)) = true ↔
      ∃ place ∈ (if cwd ≠ actual fs cwd then [cwd] else []), ∃ scope, Conflicts fs document cwd place scope ∧
        ¬scope.another (document.name T) := by
    rw [conflicts_iff distinct rfl]
    by_cases here : cwd = actual fs cwd
    · simp only [if_neg (not_not_intro here), List.not_mem_nil, false_and, exists_false, iff_false, not_and]
      exact fun apart => (apart here).elim
    · rw [if_pos here, and_iff_right here]
      simp only [List.mem_singleton, exists_eq_left]
  rw [source_closes, spelled] at linked
  unfold PolicyDocument.resolve PolicyDocument.located Closes others
  simp only [closing_closes, selected_closes]
  cases canon : canonical fs cwd with
  | none =>
    simp only [linked, Option.map_none, Option.getD_none, List.append_nil, reduceCtorEq, false_and, exists_false, false_or]
  | some path =>
    have main : (∃ place ∈ main_places fs path, document.conflicts T fs place
        (document.through_link T fs cwd (document.resolve_source T fs (actual fs cwd))) = true) ↔
          ∃ place ∈ main_places fs path, ∃ scope, Conflicts fs document cwd place scope ∧ ¬scope.another (document.name T) :=
      exists_congr fun place => and_congr_right fun _ => conflicts_iff distinct kept
    simp only [in_worktree_closes, linked, main, Option.map_some, Option.getD_some, Option.some.injEq, List.mem_append,
      or_and_right,
      exists_or]
    constructor
    · rintro ((source | spelled) | git | main)
      · exact Or.inl source
      · exact Or.inr (Or.inr (Or.inl spelled))
      · exact Or.inr (Or.inl ⟨path, git.choose, rfl, git.choose_spec⟩)
      · exact Or.inr (Or.inr (Or.inr main))
    · rintro (source | ⟨_, error, rfl, git⟩ | spelled | main)
      · exact Or.inl (Or.inl source)
      · exact Or.inr (Or.inl ⟨error, git⟩)
      · exact Or.inl (Or.inr spelled)
      · exact Or.inr (Or.inr main)

theorem selected_egress (resolved : SessionPolicy A) :
    (document.selected L fs cwd resolved).allows_telemetry_egress = true ↔
      (document.selected L fs cwd resolved).egress_withheld = none := by
  unfold PolicyDocument.selected
  cases document.selection.registry with
  | none => by_cases clears : resolved.allows_telemetry_egress = true <;> simp_all [SessionPolicy.allows_telemetry_egress]
  | some registry =>
    dsimp only
    by_cases veto : (resolved.scope.isSome && !resolved.allow_telemetry_egress) = true
    · simp [veto, SessionPolicy.allows_telemetry_egress]
    · rw [Bool.not_eq_true] at veto
      cases project : cwd.bind (Directory.matching L fs registry) with
      | none => simp [veto, SessionPolicy.allows_telemetry_egress]
      | some p =>
        by_cases permitted : document.selection.permitted p = true
        · cases engaged : resolved.governing_engagement <;> simp [veto, permitted, SessionPolicy.allows_telemetry_egress]
        · rw [Bool.not_eq_true] at permitted
          cases reporting : p.reporting <;> simp [veto, permitted, reporting, SessionPolicy.allows_telemetry_egress]

theorem closing_egress {resolved : SessionPolicy A}
    (is : resolved.allows_telemetry_egress = true ↔ resolved.egress_withheld = none) :
    resolved.closing.allows_telemetry_egress = true ↔ resolved.closing.egress_withheld = none := by
  unfold SessionPolicy.closing
  split
  · simp [SessionPolicy.allows_telemetry_egress]
  · exact is

theorem closing_refuses {resolved : SessionPolicy A} (closed : resolved.closing.fail_closed.isSome = true) :
    resolved.closing.allows_telemetry_egress = false := by
  unfold SessionPolicy.closing at closed ⊢
  split
  · simp [SessionPolicy.allows_telemetry_egress]
  · rename_i open_
    simp [open_] at closed

def SessionPolicy.source (policy : SessionPolicy A) : Directory.Source where
  scope := policy.scope
  governing_engagement := policy.governing_engagement
  allow_telemetry_egress := policy.allow_telemetry_egress
  fail_closed := policy.fail_closed

theorem resolve_grants {directory : String} (is : actual fs cwd = some directory) :
    (document.resolve T L fs cwd).allows_telemetry_egress = ((document.located T fs cwd).fail_closed.isNone &&
      document.selection.grants L fs (document.located T fs cwd).source directory) := by
  unfold PolicyDocument.resolve
  rw [is]
  generalize document.located T fs cwd = located
  have closed := @selected_closes _ L fs document (some directory) located
  unfold SessionPolicy.closing
  rw [closed]
  cases located.fail_closed with
  | some reason => simp [SessionPolicy.allows_telemetry_egress]
  | none =>
    simp only [Option.isNone_none, Bool.true_and]
    unfold PolicyDocument.selected Selection.grants
    cases document.selection.registry with
    | none => rfl
    | some registry =>
      simp only [Option.bind_some, SessionPolicy.source, SessionPolicy.allows_telemetry_egress]
      cases Directory.matching L fs registry directory with
      | none => simp
      | some p =>
        cases located.governing_engagement <;> cases veto : located.scope.isSome && !located.allow_telemetry_egress <;>
          cases permitted : document.selection.permitted p <;> simp [permitted]

/-! ### What another principal wrote -/

inductive Rewritten (name : String) : PolicyScope → PolicyScope → Prop
  | same (scope : PolicyScope) : Rewritten name scope scope
  | another {scope other : PolicyScope} (owned : scope.another name) (matcher : other.matcher = scope.matcher)
      (principal : other.principal = scope.principal) : Rewritten name scope other

inductive Rebound (name : String) : PrincipalBinding A → PrincipalBinding A → Prop
  | same (binding : PrincipalBinding A) : Rebound name binding binding
  | another {binding other : PrincipalBinding A} (owned : binding.principal ≠ name) (principal : other.principal = binding.principal)
      (os_user : other.os_user = binding.os_user) (subject : other.subject = binding.subject)
      (edge_token : other.edge_token = binding.edge_token) : Rebound name binding other

structure Apart (T : Texts) (document other : PolicyDocument A) : Prop where
  selection : other.selection = document.selection
  principal : other.principal = document.principal
  policy_mode : other.file.policy_mode = document.file.policy_mode
  constraints : other.file.constraints = document.file.constraints
  allow_private_hosts : other.file.allow_private_hosts = document.file.allow_private_hosts
  scopes : List.Forall₂ (Rewritten (document.name T)) document.file.scopes other.file.scopes
  principals : List.Forall₂ (Rebound (document.name T)) document.file.principals other.file.principals

structure Agrees (policy other : SessionPolicy A) : Prop where
  policy_mode : other.file.policy_mode = policy.file.policy_mode
  constraints : other.file.constraints = policy.file.constraints
  scope : other.scope = policy.scope
  governing_engagement : other.governing_engagement = policy.governing_engagement
  allow_telemetry_egress : other.allow_telemetry_egress = policy.allow_telemetry_egress
  fail_closed : other.fail_closed = policy.fail_closed
  egress_withheld : other.egress_withheld = policy.egress_withheld

theorem find_related {α β : Type} {R : α → β → Prop} {p : α → Bool} {q : β → Bool} (agree : ∀ {a b}, R a b → p a = q b)
    {as : List α} {bs : List β} (related : List.Forall₂ R as bs) : Option.Rel R (as.find? p) (bs.find? q) := by
  induction related with
  | nil => exact .none
  | @cons a b as bs here _ ih =>
    have same := agree here
    cases holds : p a with
    | true => rw [List.find?_cons_of_pos holds, List.find?_cons_of_pos (same ▸ holds)]; exact .some here
    | false =>
      rw [List.find?_cons_of_neg (by simp [holds]), List.find?_cons_of_neg (by simp [← same, holds])]
      exact ih

theorem rebound_key {name : String} {binding other : PrincipalBinding A} (rebound : Rebound name binding other) :
    binding.key T = other.key T := by
  cases rebound with
  | same => rfl
  | another _ principal os_user subject edge_token =>
    simp only [PrincipalBinding.key, PrincipalBinding.named, principal, os_user, subject, edge_token]

section

variable {other : PolicyDocument A} (apart : Apart T document other)
include apart

theorem apart_binding : other.binding T = document.binding T := by
  unfold PolicyDocument.binding
  rw [apart.principal]
  cases keyed : document.principal.key with
  | none => rfl
  | some key =>
    let keyedBy := fun binding : PrincipalBinding A => decide ((binding.key T).toOption = some key)
    have related := @find_related _ _ _ keyedBy keyedBy (fun rebound => by simp only [keyedBy, rebound_key rebound]) _ _ apart.principals
    simp only [Option.bind_some]
    show other.file.principals.find? keyedBy = document.file.principals.find? keyedBy
    cases found : document.file.principals.find? keyedBy with
    | none =>
      rw [found] at related
      generalize other.file.principals.find? _ = result at related
      cases related
      rfl
    | some binding =>
      have mine : document.name T = binding.principal := bound_name (by
        unfold PolicyDocument.binding
        rw [keyed]
        exact found)
      rw [found] at related
      generalize other.file.principals.find? _ = result at related
      cases related with
      | some rebound =>
        cases rebound with
        | same => rfl
        | another owned => exact (owned mine.symm).elim

theorem apart_name : other.name T = document.name T := by
  unfold PolicyDocument.name
  rw [apart_binding apart, apart.principal]

theorem apart_selecting (place : Option String) : Option.Rel (Rewritten (document.name T))
    (place.bind (document.scope_selecting fs)) (place.bind (other.scope_selecting fs)) := by
  cases place with
  | none => exact .none
  | some directory =>
    refine find_related (fun {scope next} rewritten => ?_) apart.scopes
    cases rewritten with
    | same => rfl
    | another _ matcher => simp only [scope_matches, matcher]

theorem apart_withheld (place : Option String) :
    (place.bind (other.scope_selecting fs)).bind (PolicyScope.withheld_from T · (other.name T)) =
      (place.bind (document.scope_selecting fs)).bind (PolicyScope.withheld_from T · (document.name T)) := by
  rw [apart_name apart]
  have related := @apart_selecting _ T fs document other apart place
  generalize place.bind (document.scope_selecting fs) = mine at related ⊢
  generalize place.bind (other.scope_selecting fs) = theirs at related ⊢
  cases related with
  | none => rfl
  | some rewritten =>
    cases rewritten with
    | same => rfl
    | another _ matcher principal => simp only [Option.bind_some, PolicyScope.withheld_from, principal, matcher]

theorem apart_usable (place : Option String) : usable T fs other place = usable T fs document place := by
  unfold usable
  rw [apart_name apart]
  have related := @apart_selecting _ T fs document other apart place
  generalize place.bind (document.scope_selecting fs) = mine at related ⊢
  generalize place.bind (other.scope_selecting fs) = theirs at related ⊢
  cases related with
  | none => rfl
  | @some scope next rewritten =>
    cases rewritten with
    | same => rfl
    | another owned _ principal =>
      have also : next.another (document.name T) := by
        obtain ⟨owner, is, apart_⟩ := owned
        exact ⟨owner, principal.trans is, apart_⟩
      have first := (@withheld_from_isSome T _ _).mpr owned
      have second := (@withheld_from_isSome T _ _).mpr also
      rw [Option.filter_some, Option.filter_some, if_neg (by simpa [Option.isSome_iff_ne_none] using second),
        if_neg (by simpa [Option.isSome_iff_ne_none] using first)]

theorem source_agrees (place : Option String) :
    Agrees (document.resolve_source T fs place) (other.resolve_source T fs place) := by
  have used := @apart_usable _ T fs document other apart place
  have bound := apart_binding apart
  have unbound : other.unbound T = document.unbound T := by
    unfold PolicyDocument.unbound
    rw [apart.principal]
  have empty : other.file.principals.isEmpty = document.file.principals.isEmpty := by
    rw [Bool.eq_iff_iff, List.isEmpty_iff_length_eq_zero, List.isEmpty_iff_length_eq_zero, apart.principals.length_eq]
  constructor
  · show ((usable T fs other place).bind (·.policy_mode)).getD (((other.binding T).bind (·.policy_mode)).getD other.file.policy_mode) = _
    rw [used, bound, apart.policy_mode]
    rfl
  · show ((usable T fs other place).bind (·.constraints)).getD (((other.binding T).bind (·.constraints)).getD other.file.constraints) = _
    rw [used, bound, apart.constraints]
    rfl
  · show (usable T fs other place).map (·.matcher) = _
    rw [used]
    rfl
  · show (usable T fs other place).bind (·.engagement) = _
    rw [used]
    rfl
  · show (usable T fs other place).any (·.allow_telemetry_egress) = _
    rw [used]
    rfl
  · show Option.or (Option.or (if (other.binding T).isNone && !other.file.principals.isEmpty then some (other.unbound T) else none)
      ((place.bind (other.scope_selecting fs)).bind (PolicyScope.withheld_from T · (other.name T))))
        ((other.binding T).bind fun binding =>
          if binding.require_scope && !(usable T fs other place).any (·.principal = some binding.principal) then
            some ("principal " ++ T.debug binding.principal ++ " requires a matching principal-bound directory scope")
          else none) = _
    rw [used, bound, unbound, empty, apart_withheld apart]
    rfl
  · rfl

theorem conflicts_agree (place : Option String) {resolved next : SessionPolicy A} (agrees : Agrees resolved next) :
    other.conflicts T fs place next = document.conflicts T fs place resolved := by
  show (decide ((other.resolve_source T fs place).scope ≠ next.scope) && (other.resolve_source T fs place).scope.isSome) = _
  rw [(source_agrees apart place).scope, agrees.scope]
  rfl

theorem link_agrees {resolved next : SessionPolicy A} (agrees : Agrees resolved next) :
    Agrees (document.through_link T fs cwd resolved) (other.through_link T fs cwd next) := by
  unfold PolicyDocument.through_link
  rw [conflicts_agree apart cwd agrees]
  split
  · exact { agrees with fail_closed := rfl }
  · exact agrees

theorem worktree_agrees (path : String) {resolved next : SessionPolicy A} (agrees : Agrees resolved next) :
    Agrees (document.in_worktree T fs path resolved) (other.in_worktree T fs path next) := by
  unfold PolicyDocument.in_worktree
  split
  · exact { agrees with fail_closed := rfl }
  · exact agrees
  · split
    · exact agrees
    · split
      · exact agrees
      · rw [conflicts_agree apart _ agrees]
        split
        · exact { agrees with fail_closed := rfl }
        · exact agrees

theorem selected_agrees {resolved next : SessionPolicy A} (agrees : Agrees resolved next) :
    Agrees (document.selected L fs cwd resolved) (other.selected L fs cwd next) := by
  unfold PolicyDocument.selected
  rw [apart.selection]
  cases document.selection.registry with
  | none =>
    exact { agrees with
      egress_withheld := by
        simp only [SessionPolicy.allows_telemetry_egress, agrees.scope, agrees.governing_engagement,
          agrees.allow_telemetry_egress]
        rfl }
  | some registry =>
    constructor
    · exact agrees.policy_mode
    · exact agrees.constraints
    · exact agrees.scope
    · simp only [agrees.scope, agrees.governing_engagement, agrees.allow_telemetry_egress]
    · simp only [agrees.scope, agrees.allow_telemetry_egress]
    · exact agrees.fail_closed
    · simp only [agrees.scope, agrees.allow_telemetry_egress]

omit apart in
theorem closing_agrees {resolved next : SessionPolicy A} (agrees : Agrees resolved next) :
    Agrees resolved.closing next.closing := by
  unfold SessionPolicy.closing
  cases closed : resolved.fail_closed with
  | none =>
    simp only [agrees.fail_closed.trans closed]
    exact agrees
  | some reason =>
    simp only [agrees.fail_closed.trans closed]
    exact { agrees with fail_closed := rfl, allow_telemetry_egress := rfl, egress_withheld := rfl }

theorem resolve_agrees : Agrees (document.resolve T L fs cwd) (other.resolve T L fs cwd) := by
  have source := @link_agrees _ T fs document cwd other apart _ _ (@source_agrees _ T fs document other apart (actual fs cwd))
  apply closing_agrees
  apply selected_agrees apart
  unfold PolicyDocument.located
  cases canonical fs cwd with
  | none => exact source
  | some path => exact worktree_agrees apart path source

end

structure ResolvesClosed (T : Texts) (L : Libraries) (fs : FileSystem) (document : PolicyDocument A)
    (cwd : Option String) : Prop where
  unbound : document.file.principals ≠ [] → document.binding T = none → (document.resolve T L fs cwd).fail_closed.isSome = true
  owned : ∀ scope, (actual fs cwd).bind (document.scope_selecting fs) = some scope → scope.another (document.name T) →
    (document.resolve T L fs cwd).fail_closed.isSome = true
  required : Unmet T fs document (actual fs cwd) → (document.resolve T L fs cwd).fail_closed.isSome = true
  /-- Whoever owns the scope. -/
  elsewhere : ∀ place ∈ others fs cwd, ∀ scope, Conflicts fs document cwd place scope →
    (document.resolve T L fs cwd).fail_closed.isSome = true
  own : ∀ other, Apart T document other → Agrees (document.resolve T L fs cwd) (other.resolve T L fs cwd)
  refuses : (document.resolve T L fs cwd).fail_closed.isSome = true →
    (document.resolve T L fs cwd).allows_telemetry_egress = false ∧ ∀ mode,
      let resolved := document.resolve T L fs cwd
      let policy := { resolved with file := { resolved.file with policy_mode := mode } }
      (∀ envelope provider, (policy.admit_from_provider T envelope provider).is_refusal = true) ∧
        ∀ provider, (policy.permits_provider provider).is_refusal = true
  cleared : (document.resolve T L fs cwd).allows_telemetry_egress = true ↔ (document.resolve T L fs cwd).egress_withheld = none

/-- A scope of another principal's that another path of the directory selects, and the directory does not, comes where the resolution
closes besides. -/
def Covered (T : Texts) (fs : FileSystem) (document : PolicyDocument A) (cwd : Option String) : Prop :=
  ∀ place ∈ others fs cwd, ∀ scope, Conflicts fs document cwd place scope → scope.another (document.name T) →
    Closes T fs document cwd

theorem closed_refuses {policy : SessionPolicy A} (closed : policy.fail_closed.isSome = true) :
    (∀ envelope provider, (policy.admit_from_provider T envelope provider).is_refusal = true) ∧
      ∀ provider, (policy.permits_provider provider).is_refusal = true := by
  obtain ⟨reason, is⟩ := Option.isSome_iff_exists.mp closed
  have ruling : policy.authority_ruling = some (.refused ("Principal authority refused: " ++ reason ++ ".")) := by
    rw [SessionPolicy.authority_ruling, is]
    rfl
  constructor
  · intro envelope provider
    rw [SessionPolicy.admit_from_provider, ruling]
    rfl
  · intro provider
    rw [SessionPolicy.permits_provider, ruling]
    rfl

theorem resolves_closed (document : PolicyDocument A) (cwd : Option String) {checks : OtherChecks A} {source : String}
    (accepted : check T checks source document.file = .ok ()) :
    ResolvesClosed T L fs document cwd ↔ Covered T fs document cwd := by
  have closes := @resolve_closes _ T L fs document cwd (check_distinct accepted)
  constructor
  · intro resolves place listed scope conflict _
    exact closes.mp (resolves.elsewhere place listed scope conflict)
  · intro covered
    refine
      { unbound := fun some_ none_ => closes.mpr (Or.inl (Or.inl ⟨some_, none_⟩))
        owned := fun scope selects other => closes.mpr (Or.inl (Or.inr (Or.inl ⟨scope, selects, other⟩)))
        required := fun unmet => closes.mpr (Or.inl (Or.inr (Or.inr unmet)))
        elsewhere := fun place listed scope conflict => ?_
        own := fun other apart => resolve_agrees apart
        refuses := fun closed => ⟨closing_refuses closed, fun mode => closed_refuses closed⟩
        cleared := closing_egress (selected_egress _) }
    by_cases other : scope.another (document.name T)
    · exact closes.mpr (covered place listed scope conflict other)
    · exact closes.mpr (Or.inr (Or.inr ⟨place, listed, scope, conflict, other⟩))

/-! ### A link into another principal's scope -/

def linked : FileSystem where
  canonicalize path := if path = ["/", "link"] then .ok "/real" else .error "not found"
  is_dir _ := false
  is_file _ := false
  read_to_string _ := .ok none
  filesystem_id _ := .ok "1:1"
  unicode _ := true
  trim text := text
  trusted_os_user := some 1001

def plainTexts : Texts where
  normalised_host host := host
  debug text := text
  as_decimal_string _ := ""

def passing : OtherChecks Unit where
  record_internal_prefixes := .ok ()
  allowances _ := .ok ()
  access_rules := .ok ()
  terms := .ok ()

def bound (principal : String) (os_user : UInt32) : PrincipalBinding Unit where
  principal
  os_user := some os_user
  subject := none
  edge_token := none
  require_scope := false
  allowances := []
  policy_mode := none
  constraints := none
  allow_private_hosts := none

def shared (owner : Option String) : PolicyDocument Unit where
  selection := ⟨none, false, []⟩
  file := ⟨.observe, [], [⟨"link", owner, none, false, some .strict, none⟩], [bound "alice" 1001, bound "bob" 1002], false⟩
  principal := ⟨"os-user:1001", some (.os_user 1001), .os_user⟩

/-- Under the link is a scope of bob's, and what alice resolves there is open. -/
theorem link_unclosed : check plainTexts passing "policy.json" (shared (some "bob")).file = .ok () ∧
    ¬ResolvesClosed plainTexts Directory.sampleLibraries linked (shared (some "bob")) (some "/link") := by
  refine ⟨by decide, fun resolves => ?_⟩
  have conflict : Conflicts linked (shared (some "bob")) (some "/link") (some "/link")
      ⟨"link", some "bob", none, false, some .strict, none⟩ := ⟨by decide, by decide⟩
  have closed := resolves.elsewhere (some "/link") (by decide) _ conflict
  have open_ : ((shared (some "bob")).resolve plainTexts Directory.sampleLibraries linked (some "/link")).fail_closed = none := by
    decide
  rw [open_] at closed
  cases closed

/-- Where the scope is alice's own, the link closes what she resolves. -/
theorem resolves_closed_shared :
    ResolvesClosed plainTexts Directory.sampleLibraries linked (shared (some "alice")) (some "/link") :=
  (@resolves_closed _ plainTexts Directory.sampleLibraries linked (shared (some "alice")) (some "/link") passing "policy.json"
    (by decide)).mpr fun _ _ _ _ _ => (@resolve_closes _ _ Directory.sampleLibraries _ _ _ (by decide)).mp (by decide)

end CommonMeasure.Scopes
