import CommonMeasure.Admission.Policy
import CommonMeasure.Directory.Consent

/-!
# The policy of a working directory

`policy.json` as it is accepted, and what it resolves to for a principal in a directory.
-/

namespace CommonMeasure.Scopes

open Admission (Constraint ContextEnvelope ContextJob PolicyMode Ruling Texts)
open Directory (FileSystem Libraries Selection componentsOf)

/-! ### Principals -/

inductive AuthenticationBasis where
  | os_user | oauth_subject | edge_token | unavailable

def AuthenticationBasis.as_str : AuthenticationBasis → String
  | .os_user => "os_user"
  | .oauth_subject => "oauth_subject"
  | .edge_token => "edge_token"
  | .unavailable => "unavailable"

inductive BindingKey where
  | os_user (uid : UInt32)
  | subject (subject : String)
  | edge_token (label : String)
  deriving DecidableEq

def BindingKey.display (T : Texts) : BindingKey → String
  | .os_user uid => "OS user " ++ toString uid.toNat
  | .subject sub => "subject " ++ T.debug sub
  | .edge_token label => "edge token " ++ T.debug label

structure Principal where
  name : String
  key : Option BindingKey
  basis : AuthenticationBasis

structure PolicyScope where
  matcher : String
  principal : Option String
  engagement : Option String
  allow_telemetry_egress : Bool
  policy_mode : Option PolicyMode
  constraints : Option (List Constraint)
  deriving DecidableEq

variable {A : Type}

structure PrincipalBinding (A : Type) where
  principal : String
  os_user : Option UInt32
  subject : Option String
  edge_token : Option String
  require_scope : Bool
  allowances : List A
  policy_mode : Option PolicyMode
  constraints : Option (List Constraint)
  allow_private_hosts : Option Bool

structure PolicyFile (A : Type) where
  policy_mode : PolicyMode
  constraints : List Constraint
  scopes : List PolicyScope
  principals : List (PrincipalBinding A)
  allow_private_hosts : Bool

structure PolicyDocument (A : Type) where
  selection : Selection
  file : PolicyFile A
  principal : Principal

section

variable (T : Texts)

def PrincipalBinding.named (binding : PrincipalBinding A) : List String :=
  [("os_user", binding.os_user.isSome), ("subject", binding.subject.isSome),
    ("edge_token", binding.edge_token.isSome)].filterMap fun field => if field.2 then some field.1 else none

def PrincipalBinding.key (binding : PrincipalBinding A) : Except String BindingKey :=
  match binding.named with
  | [] => .error ("principal " ++ T.debug binding.principal ++
      " names none of os_user, subject and edge_token; a binding names exactly one")
  | [_] =>
    match binding.os_user, binding.subject with
    | some uid, _ => .ok (.os_user uid)
    | none, some subject =>
      if subject = "" then .error ("principal " ++ T.debug binding.principal ++
        " names an empty subject") else .ok (.subject subject)
    | none, none =>
      let label := binding.edge_token.getD ""
      if label = "" then .error ("principal " ++ T.debug binding.principal ++ " names an empty edge_token")
      else .ok (.edge_token label)
  | [first, second] => .error ("principal " ++ T.debug binding.principal ++ " names " ++ first ++ " and " ++ second ++
      "; a binding names exactly one of os_user, subject and edge_token")
  | _ => .error ("principal " ++ T.debug binding.principal ++ " names os_user, subject and edge_token; a binding names exactly one")

structure OtherChecks (A : Type) where
  record_internal_prefixes : Except String Unit
  allowances : PrincipalBinding A → Except String Unit
  access_rules : Except String Unit
  terms : Except String Unit

variable (others : OtherChecks A) (source : String)

def check_matchers : List PolicyScope → List PolicyScope → Except String Unit
  | _, [] => .ok ()
  | earlier, scope :: rest =>
    if earlier.any (·.matcher = scope.matcher) then
      .error (source ++ " declares two scopes matching " ++ T.debug scope.matcher ++
        "; only the first would govern or take an " ++
        "edit, so the second must be merged into it or renamed")
    else check_matchers (earlier ++ [scope]) rest

def declared_twice (binding : PrincipalBinding A) : BindingKey → BindingKey → String
  | .os_user first, .os_user second => source ++ " declares principal " ++ T.debug binding.principal ++
    " twice, for OS users " ++
      toString first.toNat ++ " and " ++ toString second.toNat
  | earlier, key => source ++ " declares principal " ++ T.debug binding.principal ++ " twice, for " ++
    earlier.display T ++ " and " ++
      key.display T

def check_principals (scopes : List PolicyScope) :
    List (PrincipalBinding A × BindingKey) → List (PrincipalBinding A) → Except String Unit
  | _, [] => .ok ()
  | earlier, binding :: rest =>
    if binding.principal = "" then .error (source ++ " has a principal with an empty name")
    else
      match binding.key T with
      | .error reason => .error (source ++ " " ++ reason)
      | .ok key =>
        match earlier.find? (·.1.principal = binding.principal) with
        | some same => .error (declared_twice T source binding same.2 key)
        | none =>
          match earlier.find? (·.2 = key) with
          | some same => .error (source ++ " binds " ++ key.display T ++ " to both " ++ T.debug same.1.principal ++ " and " ++
              T.debug binding.principal ++ "; one identity cannot hold two principals")
          | none =>
            if binding.require_scope && !scopes.any (·.principal = some binding.principal) then
              .error (source ++ " requires principal " ++ T.debug binding.principal ++
                " to work in a directory scope bound to it " ++
                "and declares none, so nothing could ever be admitted for it; bind a scope or drop require_scope")
            else
              match others.allowances binding with
              | .error reason => .error reason
              | .ok () => check_principals scopes (earlier ++ [(binding, key)]) rest

def check_scope (principals : List (PrincipalBinding A)) (scope : PolicyScope) : Except String Unit :=
  if scope.engagement = some "" then .error (source ++ " has a scope with an empty \"engagement\"")
  else if scope.allow_telemetry_egress && scope.engagement.isNone then
    .error (source ++ " scope " ++ T.debug scope.matcher ++ " allows telemetry egress without naming an engagement")
  else
    match scope.principal with
    | none => .ok ()
    | some principal =>
      if principals.any (·.principal = principal) then .ok ()
      else .error (source ++ " scope " ++ T.debug scope.matcher ++ " names undeclared principal " ++ T.debug principal)

/-- The checks of `parse`. -/
def check (file : PolicyFile A) : Except String Unit := do
  others.record_internal_prefixes
  if file.scopes.any (·.matcher = "") then
    .error (source ++ " has a scope with an empty \"match\", which would govern everything")
  else do
    check_matchers T source [] file.scopes
    check_principals T others source file.scopes [] file.principals
    others.access_rules
    file.scopes.forM (check_scope T source file.principals)
    others.terms

end

inductive EgressWithheld where
  | no_directory
  | no_scope
  | scope_not_cleared (scope : String)
  | directory_not_selected
  | directory_local_only (root : String)
  | directory_not_approved (root : String)
  | failed_closed (reason : String)
  deriving DecidableEq

structure SessionPolicy (A : Type) where
  file : PolicyFile A
  scope : Option String
  governing_engagement : Option String
  allow_telemetry_egress : Bool
  allowances : List A
  principal : Principal
  fail_closed : Option String
  egress_withheld : Option EgressWithheld

namespace SessionPolicy

variable (policy : SessionPolicy A)

def allows_telemetry_egress : Bool := policy.governing_engagement.isSome && policy.allow_telemetry_egress

def policy_job : ContextJob where
  policy_mode := policy.file.policy_mode
  constraints := policy.file.constraints

def authority_ruling : Option Ruling :=
  policy.fail_closed.map fun reason => .refused ("Principal authority refused: " ++ reason ++ ".")

def admit_from_provider (T : Texts) (envelope : ContextEnvelope) (provider : Option String) : Ruling :=
  match policy.authority_ruling with
  | some ruling => ruling
  | none => Admission.source_admission_from T policy.policy_job envelope provider

def permits_provider (provider : String) : Ruling :=
  match policy.authority_ruling with
  | some ruling => ruling
  | none => Admission.provider_eligibility policy.policy_job provider

end SessionPolicy

variable (T : Texts) (L : Libraries) (fs : FileSystem)

def scope_matches (scope : PolicyScope) (cwd : String) : Bool :=
  scope.matcher.toList <:+: cwd.toList ||
    scope.matcher.toList.head? = some '/' && (fs.canonicalize (componentsOf scope.matcher)).toOption.any fun root =>
      (componentsOf root).isPrefixOf (componentsOf cwd)

/-- `Vec::swap_remove`. -/
def swap_remove {α : Type} (items : List α) (position : Nat) : List α :=
  match items.getLast? with
  | none => []
  | some last => (items.set position last).dropLast

namespace PolicyDocument

variable (document : PolicyDocument A)

def scope_selecting (directory : String) : Option PolicyScope := document.file.scopes.find? (scope_matches fs · directory)

def binding : Option (PrincipalBinding A) :=
  document.principal.key.bind fun key => document.file.principals.find? fun binding => (binding.key T).toOption = some key

def name : String := ((document.binding T).map (·.principal)).getD document.principal.name

def unbound : String :=
  match document.principal.key with
  | some (.os_user os_user) => "effective OS user " ++ toString os_user.toNat ++ " has no principal binding"
  | some key => key.display T ++ " has no principal binding"
  | none => "this platform authenticates no identity (basis " ++ document.principal.basis.as_str ++
      "), so no principal binding can be resolved"

end PolicyDocument

def PolicyScope.withheld_from (scope : PolicyScope) (name : String) : Option String :=
  match scope.principal with
  | none => none
  | some owner =>
    if owner = name then none
    else some ("principal " ++ T.debug name ++ " may not use directory scope " ++ T.debug scope.matcher ++
      ", which belongs to principal " ++ T.debug owner)

namespace PolicyDocument

variable (document : PolicyDocument A)

def resolve_source (cwd : Option String) : SessionPolicy A :=
  let binding := document.binding T
  let name := document.name T
  let unbound := if binding.isNone && !document.file.principals.isEmpty then some (document.unbound T) else none
  let matched := cwd.bind (document.scope_selecting fs)
  let scopes := match cwd.bind fun cwd => document.file.scopes.findIdx? (scope_matches fs · cwd) with
    | some position => swap_remove document.file.scopes position
    | none => document.file.scopes
  -- Ownership is checked, never searched past.
  let withheld := unbound.or (matched.bind (PolicyScope.withheld_from T · name))
  let matched := matched.filter fun scope => (scope.withheld_from T name).isNone
  let fail_closed := withheld.or (binding.bind fun binding =>
    if binding.require_scope && !matched.any (·.principal = some binding.principal) then
      some ("principal " ++ T.debug binding.principal ++ " requires a matching principal-bound directory scope")
    else none)
  { file :=
      { policy_mode := (matched.bind (·.policy_mode)).getD ((binding.bind (·.policy_mode)).getD document.file.policy_mode)
        constraints := (matched.bind (·.constraints)).getD ((binding.bind (·.constraints)).getD document.file.constraints)
        scopes
        principals := document.file.principals
        allow_private_hosts := (binding.bind (·.allow_private_hosts)).getD document.file.allow_private_hosts }
    scope := matched.map (·.matcher)
    governing_engagement := matched.bind (·.engagement)
    allow_telemetry_egress := matched.any (·.allow_telemetry_egress)
    allowances := (binding.map (·.allowances)).getD []
    principal := { document.principal with name }
    fail_closed
    egress_withheld := none }

end PolicyDocument

def canonical (cwd : Option String) : Option String := cwd.bind fun cwd => (fs.canonicalize (componentsOf cwd)).toOption

def actual (cwd : Option String) : Option String := ((canonical fs cwd).filter fs.unicode).or cwd

def joined (components : Directory.Components) : String := String.intercalate "/" components

def in_main_worktree (common : String) (root : Directory.Components) (path : String) : Option String :=
  let parts := componentsOf common
  if Directory.hasParent parts then
    let main := match parts.dropLast with
      | "/" :: rest => "/" ++ joined rest
      | rest => joined rest
    let main := if main = "" || main = "/" then main else main ++ "/"
    some (main ++ joined (if root <+: componentsOf path then (componentsOf path).drop root.length else []))
  else none

namespace PolicyDocument

variable (document : PolicyDocument A)

def conflicts (place : Option String) (resolved : SessionPolicy A) : Bool :=
  let other := document.resolve_source T fs place
  other.scope ≠ resolved.scope && other.scope.isSome

def through_link (cwd : Option String) (resolved : SessionPolicy A) : SessionPolicy A :=
  if cwd ≠ actual fs cwd && document.conflicts T fs cwd resolved then
    { resolved with fail_closed := some "symlink and selected directory resolve different source-policy scopes" }
  else resolved

def in_worktree (path : String) (resolved : SessionPolicy A) : SessionPolicy A :=
  match Directory.git_identity fs (componentsOf path) with
  | .error error => { resolved with fail_closed := some ("Git directory identity unavailable: " ++ error) }
  | .ok none => resolved
  | .ok (some (common, root)) =>
    if componentsOf common = root ++ [".git"] then resolved
    else
      match in_main_worktree common root path with
      | none => resolved
      | some original =>
        if document.conflicts T fs (some original |>.filter fs.unicode) resolved then
          { resolved with fail_closed := some ("linked Git worktree differs from its main worktree source-policy scope; align " ++
            "policy before retrieval") }
        else resolved

/-- What the registry of projects makes of the scope's clearance, where directory selection is in force. -/
def selected (cwd : Option String) (resolved : SessionPolicy A) : SessionPolicy A :=
  let scope_withheld : EgressWithheld := match resolved.scope with
    | none => .no_scope
    | some scope => .scope_not_cleared scope
  match document.selection.registry with
  | none => { resolved with egress_withheld := if resolved.allows_telemetry_egress then none else some scope_withheld }
  | some registry =>
    let project := cwd.bind (Directory.matching L fs registry)
    let veto := resolved.scope.isSome && !resolved.allow_telemetry_egress
    let permitted := project.any fun p => !veto && document.selection.permitted p
    { resolved with
      allow_telemetry_egress := permitted
      governing_engagement :=
        if permitted && resolved.governing_engagement.isNone then project.map (·.name) else resolved.governing_engagement
      egress_withheld :=
        if veto then some scope_withheld
        else if permitted then none
        else
          match project with
          | none => some .directory_not_selected
          | some project =>
            if !project.reporting then some (.directory_local_only project.root) else some (.directory_not_approved project.root) }

end PolicyDocument

def SessionPolicy.closing (resolved : SessionPolicy A) : SessionPolicy A :=
  match resolved.fail_closed with
  | some reason => { resolved with allow_telemetry_egress := false, egress_withheld := some (.failed_closed reason) }
  | none => resolved

def PolicyDocument.located (document : PolicyDocument A) (cwd : Option String) : SessionPolicy A :=
  let resolved := document.through_link T fs cwd (document.resolve_source T fs (actual fs cwd))
  match canonical fs cwd with
  | some path => document.in_worktree T fs path resolved
  | none => resolved

def PolicyDocument.resolve (document : PolicyDocument A) (cwd : Option String) : SessionPolicy A :=
  (document.selected L fs (actual fs cwd) (document.located T fs cwd)).closing

end CommonMeasure.Scopes
