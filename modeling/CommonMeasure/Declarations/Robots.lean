import CommonMeasure.Declarations.Forms
import CommonMeasure.Foundation.Cuts

/-!
# robots.txt

The parser of `robots.txt`, a state machine over the lines, and the reading of a page under the file it gives.
-/

namespace CommonMeasure.Declarations

/-- `str::lines`, of one segment. -/
def unterminated (segment : Text) : Text :=
  match strip_suffix '\n' segment with
  | none => segment
  | some line => (strip_suffix '\r' line).getD line

def lines (text : Text) : List Text := (splitInclusive '\n' text).map unterminated

def to_ascii_lowercase (text : Text) : Text := text.map Char.toLower

inductive Line where
  | blank
  | unlabelled
  | record (label value : Text)
deriving DecidableEq

def uncommented (raw : Text) : Text := raw.takeWhile (· ≠ '#')

def read_line (raw : Text) : Line :=
  let line := trim (uncommented raw)
  if line = [] then .blank
  else if ':' ∈ line then
    .record (to_ascii_lowercase (trim (line.takeWhile (· ≠ ':')))) (trim ((line.dropWhile (· ≠ ':')).drop 1))
  else .unlabelled

structure AccessRule where
  allow : Bool
  pattern : Text
deriving DecidableEq

structure Group where
  agents : List Text
  rules : List AccessRule
  content_usage : List (Option Text × Text)
  content_signal : List Text
  licences : List Text
  crawl_delay : List Text
deriving DecidableEq

def Group.default : Group := ⟨[], [], [], [], [], []⟩

structure RobotsFile where
  groups : List Group
  global_licences : List Text
  global_content_signal : List Text
deriving DecidableEq

structure Parser where
  file : RobotsFile
  current : Option Group
  agents_open : Bool
  in_block : Bool

def Parser.start : Parser := { file := ⟨[], [], []⟩, current := none, agents_open := false, in_block := false }

def USER_AGENT : Text := "user-agent".toList
def ALLOW : Text := "allow".toList
def DISALLOW : Text := "disallow".toList
def CONTENT_USAGE : Text := "content-usage".toList
def CRAWL_DELAY : Text := "crawl-delay".toList
def CONTENT_SIGNAL : Text := "content-signal".toList
def LICENSE : Text := "license".toList
def SITEMAP : Text := "sitemap".toList

def Parser.pushed (s : Parser) : RobotsFile := { s.file with groups := s.file.groups ++ s.current.toList }

def Parser.user_agent (s : Parser) (value : Text) : Parser :=
  let s := if s.agents_open then s else { s with file := s.pushed, current := some Group.default, agents_open := true }
  { s with
    in_block := true
    current := s.current.map fun group => { group with agents := group.agents ++ [to_ascii_lowercase value] } }

def Parser.grouped (s : Parser) (change : Group → Group) : Parser :=
  { s with agents_open := false, in_block := s.in_block || s.current.isSome, current := s.current.map change }

/-- The path and the preference of a `Content-Usage` rule. -/
def usage_rule (value : Text) : Option Text × Text :=
  match value with
  | '/' :: _ =>
    (some (value.takeWhile fun c => c ≠ ' ' ∧ c ≠ '\t'), trim (value.dropWhile fun c => c ≠ ' ' ∧ c ≠ '\t'))
  | _ => (none, value)

def Parser.scoped_record (s : Parser) (change : Group → Group) (global : RobotsFile → RobotsFile) : Parser :=
  if s.in_block ∧ s.current.isSome then { s with agents_open := false, current := s.current.map change }
  else { s with agents_open := false, file := global s.file }

def Parser.step (s : Parser) (raw : Text) : Parser :=
  match read_line raw with
  | .blank => { s with in_block := false }
  | .unlabelled => s
  | .record label value =>
    if label = USER_AGENT then s.user_agent value
    else if label = ALLOW ∨ label = DISALLOW then
      s.grouped fun group => { group with rules := group.rules ++ [{ allow := label = ALLOW, pattern := value }] }
    else if label = CONTENT_USAGE then
      s.grouped fun group => { group with content_usage := group.content_usage ++ [usage_rule value] }
    else if label = CRAWL_DELAY then
      s.grouped fun group => { group with crawl_delay := group.crawl_delay ++ [value] }
    else if label = CONTENT_SIGNAL then
      s.scoped_record (fun group => { group with content_signal := group.content_signal ++ [value] })
        (fun file => { file with global_content_signal := file.global_content_signal ++ [value] })
    else if label = LICENSE then
      s.scoped_record (fun group => { group with licences := group.licences ++ [value] })
        (fun file => { file with global_licences := file.global_licences ++ [value] })
    else if label = SITEMAP then { s with agents_open := false, in_block := false }
    else { s with agents_open := false }

def parse_robots (text : Text) : RobotsFile := ((lines text).foldl Parser.step Parser.start).pushed

def AccessRule.form (rule : AccessRule) : Text := matching_pattern rule.pattern

def AccessRule.covers (rule : AccessRule) (reading : Text) : Bool := rule.pattern ≠ [] && matches_form rule.form reading

def AccessRule.rank (rule : AccessRule) : Nat := byteLen rule.form

def AccessRule.yields (a b : AccessRule) : Bool := a.rank < b.rank || a.rank = b.rank && (!a.allow || b.allow)

def longest_match (rules : List AccessRule) (reading : Text) : Option AccessRule :=
  (rules.filter (·.covers reading)).foldl (fun best rule => some (best.elim rule fun kept => if kept.yields rule then rule else kept)) none

structure RobotsReading where
  group : Option Text
  group_is_wildcard : Bool
  crawlable : Option Bool
  access_rule : Option Text
  access_rule_wildcard : Option Bool
  licences : List Text
  too_many_readings : Option TooManyReadings
deriving DecidableEq

def TooManyReadings.text (too_many : TooManyReadings) : Text :=
  ("the page's path has more than " ++ toString too_many.cap ++ " readings (decoding `%2F`, `%5C` and `%3B`, merging `/`, " ++
    "resolving dot segments and stripping `;` parameters, in any order), so it is refused without comparing them").toList

def STAR : Text := ['*']

def decide_access (rules : List AccessRule) (readings : List Text) : Option AccessRule :=
  let decisions := readings.filterMap (longest_match rules)
  decisions.find? (!·.allow) <|> decisions.head?

def RobotsFile.named (file : RobotsFile) (name : Text) : List Group := file.groups.filter (·.agents.contains name)

def read_groups (file : RobotsFile) (groups : List Group) (name : Text) (group_is_wildcard : Bool) (readings : List Text) :
    RobotsReading :=
  let decided := decide_access (groups.flatMap (·.rules)) readings
  let group_licences := groups.flatMap (·.licences)
  { group := some name
    group_is_wildcard
    crawlable := some (decided.all (·.allow))
    access_rule := decided.map fun rule => (if rule.allow then "Allow: " else "Disallow: ").toList ++ rule.pattern
    access_rule_wildcard := decided.map fun rule => rule.pattern.contains '*'
    licences := if group_licences.isEmpty then file.global_licences else group_licences
    too_many_readings := none }

def RobotsFile.read_readings (file : RobotsFile) (token : Text) : Except TooManyReadings (List Text) → RobotsReading
  | .error too_many =>
    { group := none
      group_is_wildcard := false
      crawlable := some false
      access_rule := some too_many.text
      access_rule_wildcard := none
      licences := file.global_licences
      too_many_readings := some too_many }
  | .ok readings =>
    let wanted := to_ascii_lowercase token
    if (file.named wanted).isEmpty then
      if (file.named STAR).isEmpty then
        { group := none
          group_is_wildcard := false
          crawlable := none
          access_rule := none
          access_rule_wildcard := none
          licences := file.global_licences
          too_many_readings := none }
      else read_groups file (file.named STAR) STAR true readings
    else read_groups file (file.named wanted) token false readings

def RobotsFile.read {Url : Type} (u : UrlCrate Url) (file : RobotsFile) (token path : Text) : RobotsReading :=
  file.read_readings token (matching_target_readings u path)

end CommonMeasure.Declarations
