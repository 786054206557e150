import CommonMeasure.Json.Canonical
import CommonMeasure.Foundation.Locked
import CommonMeasure.Json.Pretty

namespace CommonMeasure.Directory

open Json

section

abbrev Components := List String

def componentsOf (path : String) : Components :=
  let parts := (path.toList.splitOn '/').map String.ofList
  (if path.toList.head? = some '/' then ["/"] else if parts.head? = some "." then ["."] else []) ++
    parts.filter fun part => part ≠ "" ∧ part ≠ "."

/-- `Path::join`. -/
def join (base target : Components) : Components := if target.head? = some "/" then target else base ++ target

def ancestors (path : Components) : List Components :=
  (if path.head? = some "/" then path.inits.tail else path.inits).reverse

def hasParent (path : Components) : Bool := path ≠ [] && path ≠ ["/"]

structure FileSystem where
  canonicalize : Components → Except String String
  is_dir : Components → Bool
  is_file : Components → Bool
  /-- `None` where the file is not there. -/
  read_to_string : Components → Except String (Option String)
  /-- The device and inode of a directory. -/
  filesystem_id : Components → Except String String
  /-- Whether the path is UTF-8. -/
  unicode : String → Bool
  /-- `str::trim`. -/
  trim : String → String
  trusted_os_user : Option UInt32

variable (fs : FileSystem)

def selected (path : String) : Except String String :=
  match fs.canonicalize (componentsOf path) with
  | .error e => .error ("cannot resolve directory " ++ path ++ ": " ++ e)
  | .ok root =>
    if !fs.is_dir (componentsOf root) || !hasParent (componentsOf root) then
      .error "select an existing project directory, not a filesystem root"
    else if !fs.unicode root then .error "project directory must be UTF-8"
    else .ok root

def commonOf (gitdir : String) : Except String String := do
  match ← fs.read_to_string (componentsOf gitdir ++ ["commondir"]) with
  | some text => fs.canonicalize (join (componentsOf gitdir) (componentsOf (fs.trim text)))
  | none => .ok gitdir

def linkTarget (text : String) : Except String String :=
  if "gitdir: ".toList.isPrefixOf text.toList then .ok (String.ofList (text.toList.drop 8)) else .error "invalid .git link"

def gitIdentityFrom : List Components → Except String (Option (String × Components))
  | [] => .ok none
  | ancestor :: rest => do
    let dot := ancestor ++ [".git"]
    if fs.is_dir dot then .ok (some (← fs.canonicalize dot, ancestor))
    else if fs.is_file dot then
      match ← fs.read_to_string dot with
      | none => .error "entity not found"
      | some text =>
        let target ← linkTarget (fs.trim text)
        let gitdir ← fs.canonicalize (join ancestor (componentsOf target))
        .ok (some (← commonOf fs gitdir, ancestor))
    else gitIdentityFrom rest

def git_identity (path : Components) : Except String (Option (String × Components)) := gitIdentityFrom fs (ancestors path)

structure Hashing where
  write_number : Number → Number
  sha256_digest : Bytes → String

def orNull : Option String → Value
  | some s => .string s
  | none => .null

variable (H : Hashing)

def binding (root : String) (user : UInt32) (git : Option String) (nonce : String) : String :=
  H.sha256_digest (canonical_json H.write_number (.object [("schema", .string "commonmeasure-directory-binding/v1"),
    ("nonce", .string nonce), ("filesystem_id", orNull (fs.filesystem_id (componentsOf root)).toOption),
    ("root", .string root), ("os_user", .number (.ofNat user.toNat)), ("git_common", orNull git)]))

end

structure Project where
  id : String
  nonce : String
  root : String
  filesystem_id : String
  name : String
  os_user : UInt32
  git_common : Option String
  binding : String
  reporting : Bool
  deriving DecidableEq

def Project.key (p : Project) : Components × UInt32 := (componentsOf p.root, p.os_user)

def Project.toValue (p : Project) : Value :=
  .object [("id", .string p.id), ("nonce", .string p.nonce), ("root", .string p.root),
    ("filesystem_id", .string p.filesystem_id), ("name", .string p.name), ("os_user", .number (.ofNat p.os_user.toNat)),
    ("git_common", orNull p.git_common), ("binding", .string p.binding), ("reporting", .bool p.reporting)]

def PROJECT_FIELDS : List String :=
  ["id", "nonce", "root", "filesystem_id", "name", "os_user", "git_common", "binding", "reporting"]

def asBool : Value → Option Bool
  | .bool b => some b
  | _ => none

def asU32 (value : Value) : Option UInt32 := (value.asU64.filter (· < 2 ^ 32)).map UInt32.ofNat

def Project.ofValue : Value → Option Project
  | .object members => do
    let id ← text members "id"
    let nonce ← text members "nonce"
    let root ← text members "root"
    let filesystem_id ← text members "filesystem_id"
    let name ← text members "name"
    let os_user ← (field members "os_user").bind asU32
    let git_common ← optionalText members "git_common"
    let binding ← text members "binding"
    let reporting ← (field members "reporting").bind asBool
    if members.all fun member => member.1 ∈ PROJECT_FIELDS then
      some { id, nonce, root, filesystem_id, name, os_user, git_common, binding, reporting }
    else none
  | _ => none

def document (projects : List Project) : Value := .object [("projects", .array (projects.map Project.toValue))]

def ofDocument : Value → Option (List Project)
  | .object [("projects", .array items)] => items.mapM Project.ofValue
  | _ => none

structure Home where
  /-- `directory-selection.json` is there. -/
  marker : Bool
  /-- The bytes of `directories.json`. -/
  registry : Option Bytes

structure Libraries extends Hashing where
  from_slice : Bytes → Except String Value
  /-- What `serde` says of a document that is not a registry. -/
  mismatch : Value → String

structure Libraries.Lawful (L : Libraries) : Prop where
  read_pretty : ∀ value : Value, value.depth ≤ recursionLimit → L.from_slice (pretty value) = .ok value

variable (L : Libraries)

/-- `Registry::read`. -/
def read (home : Home) : Except String (Option (List Project)) :=
  match home.registry with
  | some bytes =>
    match L.from_slice bytes with
    | .error e => .error ("invalid directory registry: " ++ e)
    | .ok value =>
      match ofDocument value with
      | some projects => .ok (some projects)
      | none => .error ("invalid directory registry: " ++ L.mismatch value)
  | none => .ok (if home.marker then some [] else none)

/-- A call of `enrol`: what it is given, what the file system answers at the three times it is asked, and the ids drawn. -/
structure Enrolment where
  root : String
  name : String
  reporting : Bool
  resolved : FileSystem
  bound : FileSystem
  stamped : FileSystem
  id : String
  nonce : String

def Enrolment.checked (e : Enrolment) : Except String (String × UInt32 × Option String) := do
  let root ← selected e.resolved e.root
  if e.resolved.trim e.name = "" ∨ 200 < (utf8 e.name).length then .error "project name must contain 1–200 bytes"
  else match e.resolved.trusted_os_user with
  | none => .error "this platform has no authenticated OS user for directory binding"
  | some user => do
    let git ← git_identity e.resolved (componentsOf root)
    .ok (root, user, git.map Prod.fst)

def Enrolment.project (e : Enrolment) (root : String) (user : UInt32) (git : Option String) (filesystem_id : String)
    (old : Option Project) : Project :=
  let nonce := (old.map Project.nonce).getD e.nonce
  let binding := binding e.bound L.toHashing root user git nonce
  { id := ((old.filter fun p => p.binding = binding).map Project.id).getD e.id
    nonce, root, filesystem_id
    name := e.resolved.trim e.name
    os_user := user
    git_common := git
    binding
    reporting := e.reporting }

def enrolInto (key : Components × UInt32) (make : Option Project → Project) : List Project → List Project × Project
  | [] => ([make none], make none)
  | p :: rest =>
    if p.key = key then (make (some p) :: rest, make (some p))
    else (p :: (enrolInto key make rest).1, (enrolInto key make rest).2)

def Enrolment.enrolled (e : Enrolment) (projects : List Project) : Except String (List Project × Project) := do
  let (root, user, git) ← e.checked
  let filesystem_id ← e.stamped.filesystem_id (componentsOf root)
  .ok (enrolInto (componentsOf root, user) (e.project L root user git filesystem_id) projects)

def stored (projects : List Project) : Home := ⟨true, some (pretty (document projects))⟩

def enrol (e : Enrolment) (home : Home) : Except String (List Home × Project) := do
  let (projects, project) ← e.enrolled L ((← read L home).getD [])
  .ok ([{ home with marker := true }, stored projects], project)

def rewriter : Locked.Rewriter Enrolment Home String Project where
  allows e := e.checked.map fun _ => ()
  rewrite := enrol L

variable (fs : FileSystem)

def bindingMatches (user : UInt32) (p : Project) (root_git : Option String) : Bool :=
  p.os_user = user && (fs.filesystem_id (componentsOf p.root)).toOption = some p.filesystem_id &&
    p.git_common = root_git && p.binding = binding fs L.toHashing p.root user root_git p.nonce

def governs (user : UInt32) (path : String) (git : Option (String × Components)) (p : Project) : Bool :=
  match selected fs p.root with
  | .error _ => false
  | .ok root =>
    match git_identity fs (componentsOf root) with
    | .error _ => false
    | .ok root_git =>
      componentsOf root = componentsOf p.root && bindingMatches L fs user p (root_git.map Prod.fst) &&
        (componentsOf p.root).isPrefixOf (componentsOf path) && (!p.reporting || root_git = git)

def rank (p : Project) : Nat × Nat := (if p.reporting then 0 else 1, (componentsOf p.root).length)

def rankLe (a b : Nat × Nat) : Bool := a.1 < b.1 || (a.1 = b.1 && a.2 ≤ b.2)

/-- `max_by_key`: the last of the greatest. -/
def maxByRank : List Project → Option Project
  | [] => none
  | p :: rest =>
    match maxByRank rest with
    | none => some p
    | some q => if rankLe (rank p) (rank q) then some q else some p

def matching (projects : List Project) (cwd : String) : Option Project :=
  match selected fs cwd with
  | .error _ => none
  | .ok path =>
    match fs.trusted_os_user with
    | none => none
    | some user =>
      match git_identity fs (componentsOf path) with
      | .error _ => none
      | .ok git => maxByRank (projects.filter (governs L fs user path git))

end CommonMeasure.Directory
