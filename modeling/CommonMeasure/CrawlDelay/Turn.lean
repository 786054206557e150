import CommonMeasure.Foundation.Text
import Mathlib

namespace CommonMeasure.CrawlDelay

/-- What the store takes from outside: SHA-256, the last instant of the clock, and an instant's text. Instants and
durations are in nanoseconds. -/
structure Platform where
  sha256 : Bytes → Bytes
  latest : Int
  rfc3339 : Int → String

structure Store where
  platform : Platform
  home : String

def edge : Store := ⟨⟨fun _ => [], 8210266876799999999999, fun _ => "a later instant"⟩, "/home/operator"⟩

inductive Pace where
  | own | hosted
  deriving DecidableEq

def Pace.namesTheEdge : Pace → Bool
  | .own => true
  | .hosted => false

def MAX_NAME : Nat := 64

def KEPT_NAME : Nat := 40

def fold (c : Char) : Char := if c.isAlphanum ∨ c = '.' ∨ c = '-' then c else '_'

def hexByte (b : UInt8) : List Char := [Nat.digitChar (b.toNat / 16), Nat.digitChar (b.toNat % 16)]

def hex (bytes : Bytes) : String := String.ofList (bytes.flatMap hexByte)

def fileName (platform : Platform) (host : String) : String :=
  let folded := host.toList.map fold
  if folded.length ≤ MAX_NAME then String.ofList folded
  else String.ofList (folded.take KEPT_NAME) ++ "-" ++ hex (platform.sha256 (utf8 host))

def Store.fileFor (store : Store) (host extension : String) : String :=
  fileName store.platform host ++ "." ++ extension

def Store.dir (store : Store) : String := store.home ++ "/crawl-delay"

def Store.pathFor (store : Store) (host extension : String) : String :=
  store.dir ++ "/" ++ store.fileFor host extension

def QUOTED_HOST_CHARS : Nat := 64

def quotedHost (host : String) : String :=
  if host.toList.length ≤ QUOTED_HOST_CHARS then host
  else String.ofList (host.toList.take QUOTED_HOST_CHARS) ++ "…"

/-- `str::replace`, of a pattern that is not empty. -/
def replaceAll (pattern replacement : List Char) : List Char → List Char
  | [] => []
  | c :: rest =>
    if pattern ≠ [] ∧ pattern.isPrefixOf (c :: rest) then
      replacement ++ replaceAll pattern replacement ((c :: rest).drop pattern.length)
    else c :: replaceAll pattern replacement rest
termination_by text => text.length
decreasing_by
  · rename_i found
    have some : 0 < pattern.length := List.length_pos_iff.mpr found.1
    simp only [List.length_drop, List.length_cons]
    omega
  · simp

inductive LockRefused where
  | busy (reason : String)
  | lockFile (cause : String)
  | failed (reason : String)

def LOCK_FILE_REMEDY : String :=
  "make that lock file readable and writable by this user, or stop any commonmeasure process run as another user, " ++
    "such as under sudo, and then remove it"

section

variable (store : Store) (pace : Pace)

def Store.namedDir : String := if pace.namesTheEdge then store.dir else "crawl-delay"

def Store.named (host extension : String) : String :=
  if pace.namesTheEdge then store.pathFor host extension else store.fileFor host extension

def Store.cause (reason : String) : String :=
  if pace.namesTheEdge then reason
  else String.ofList (replaceAll store.dir.toList "crawl-delay".toList reason.toList)

def Store.remedy (detail : String) : String :=
  if pace.namesTheEdge then
    store.cause pace detail ++ ". The time of the last request to each host is kept under " ++ store.dir ++
      "; make the operator home writable, or remove that directory to have it rebuilt, and the fetch goes through"
  else
    store.cause pace detail ++ ". The time of the last request to each host is kept on the edge that serves this " ++
      "session; its operator can make that store writable or clear it, and the fetch goes through"

def Store.lockFileRemedy (reason : String) : String :=
  if pace.namesTheEdge then store.cause pace reason ++ "; " ++ LOCK_FILE_REMEDY ++ ", and the fetch goes through"
  else
    store.cause pace reason ++ ". The time of the last request to each host is kept on the edge that serves this " ++
      "session; its operator can repair that lock file, and the fetch goes through"

end


def millisecond : Nat := 1000000

def seconds (n : Nat) : Nat := n * 1000000000

def MAX_CRAWL_DELAY : Nat := seconds 60

def WAIT_BUDGET : Nat := MAX_CRAWL_DELAY

def millis (duration : Nat) : Nat := min (duration / millisecond) (2 ^ 64 - 1)

def asI64 (duration : Nat) : Nat := min (duration / millisecond) (2 ^ 63 - 1)

def fromMillis (ms : Nat) : Nat := ms * millisecond

def horizon : Nat := fromMillis (asI64 (MAX_CRAWL_DELAY + WAIT_BUDGET))

/-- `DateTime::checked_add_signed`, of a duration that is not negative. -/
def Platform.checkedAdd (platform : Platform) (at_ : Int) (duration : Nat) : Option Int :=
  if at_ + duration ≤ platform.latest then some (at_ + duration) else none

theorem checkedAdd_some {platform : Platform} {at_ sum : Int} {duration : Nat}
    (some : platform.checkedAdd at_ duration = some sum) : sum = at_ + duration := by
  unfold Platform.checkedAdd at some
  split at some
  · exact (Option.some.inj some).symm
  · cases some

structure LastRequest where
  host : String
  at_ : Int
  deriving DecidableEq

inductive Record where
  | absent
  | unopened (error : String)
  | notTurn (error : String)
  | turn (request : LastRequest)
  deriving DecidableEq

inductive DelayOutcome where
  | clear | waited | refused | unavailable
  deriving DecidableEq

structure DelayRuling where
  host : String
  delayMs : Nat
  outcome : DelayOutcome
  waitMs : Option Nat
  budgetMs : Nat
  nextAt : Option Int
  unavailable : Option String
  recovered : Option String
  licenceFirst : Option String
  deriving DecidableEq

def DelayRuling.sends (ruling : DelayRuling) : Bool := ruling.outcome = .clear ∨ ruling.outcome = .waited

inductive Files where
  | done
  | directory (error : String)
  | lock (refused : LockRefused)
  | write (error : String) (renamed : Bool)

section

variable (store : Store)

def Record.written (request : LastRequest) (record : Record) : Files → Record
  | .done | .write _ true => .turn request
  | _ => record

def Store.last (host : String) (record : Record) (now : Int) (pace : Pace) : Option Int × Option String :=
  let (last, recovered) := match record with
    | .turn request => (some request.at_, none)
    | .notTurn error =>
      (some now, some (store.named pace host "json" ++ " could not be read as a turn (" ++ error ++
        "), so this request owed one"))
    | .absent => (none, none)
    | .unopened error =>
      (some now, some (store.named pace host "json" ++ " could not be opened (" ++ error ++
        "), so this request owed a turn"))
  match last with
  | some at_ =>
    if (store.platform.checkedAdd now horizon).any (· < at_) then
      (some now, some (match pace with
        | .own => "the turn recorded for " ++ quotedHost host ++ " was " ++ store.platform.rfc3339 at_ ++
            ", beyond the " ++ toString (horizon / seconds 1) ++
            "s a turn can reach, so the clock has moved backwards and this request owed a turn"
        | .hosted => "the turn recorded for " ++ quotedHost host ++ " was beyond the " ++
            toString (horizon / seconds 1) ++
            "s a turn can reach, so the clock has moved backwards and this request owed a turn"))
    else (last, recovered)
  | none => (last, recovered)

def Store.next (last : Option Int) (delay : Nat) (now : Int) : Option Int :=
  (last.bind fun at_ => store.platform.checkedAdd at_ (fromMillis (asI64 delay))).filter (now < ·)

def roundedUp (wait : Nat) : Nat := min (millis wait + if wait % millisecond = 0 then 0 else 1) (2 ^ 64 - 1)

def Store.turn (ruling : DelayRuling) (delay budget : Nat) (now : Int) (pace : Pace) (files : Files)
    (record : Record) : Except String Unit × DelayRuling × Record :=
  if ruling.host = "" then
    (.error "the URL names no host, so there is no host to keep a delay for", ruling, record)
  else match files with
  | .directory error =>
    (.error (store.remedy pace (store.namedDir pace ++ " could not be created: " ++ error)), ruling, record)
  | .lock (.busy _) =>
    (.error ("another server on this edge held " ++ store.named pace ruling.host "lock" ++
      " while this request waited for its turn; a later request takes its turn once that server lets go"), ruling, record)
  | .lock (.lockFile cause) => (.error (store.lockFileRemedy pace cause), ruling, record)
  | .lock (.failed reason) => (.error (store.remedy pace reason), ruling, record)
  | _ =>
    let (last, recovered) := store.last ruling.host record now pace
    let ruling := { ruling with recovered }
    let write (ruling : DelayRuling) (sendAt : Int) : Except String Unit × DelayRuling × Record :=
      (match files with
        | .write error _ => .error (store.remedy pace error)
        | _ => .ok (), ruling, record.written ⟨ruling.host, sendAt⟩ files)
    match store.next last delay now with
    | none => write ruling now
    | some next =>
      let waitMs := roundedUp (next - now).toNat
      let ruling := { ruling with waitMs := some waitMs }
      if budget < fromMillis waitMs then
        (.ok (), { ruling with outcome := .refused, nextAt := some next }, record)
      else write { ruling with outcome := .waited } next

def Store.takeTurn (host : String) (delay budget : Nat) (now : Int) (pace : Pace) (files : Files) (record : Record) :
    DelayRuling × Record :=
  let delay := min delay MAX_CRAWL_DELAY
  let ruling : DelayRuling := {
    host
    delayMs := millis delay
    outcome := .clear
    waitMs := some 0
    budgetMs := millis budget
    nextAt := none
    unavailable := none
    recovered := none
    licenceFirst := none }
  match store.turn ruling delay budget now pace files record with
  | (.ok (), ruling, record) => (ruling, record)
  | (.error reason, ruling, record) =>
    ({ ruling with outcome := .unavailable, waitMs := some 0, nextAt := none, unavailable := some reason }, record)

def Store.pendingWait (delay : Nat) (now : Int) (record : Record) : Nat :=
  let delay := min delay MAX_CRAWL_DELAY
  match record with
  | .notTurn _ | .unopened _ => delay
  | .absent => 0
  | .turn request =>
    if (store.platform.checkedAdd now horizon).any (· < request.at_) then delay
    else match store.next (some request.at_) delay now with
      | some next => (next - now).toNat
      | none => 0

def Store.sent (host : String) (at_ : Int) (pace : Pace) (files : Files) (record : Record) :
    Except String Unit × Record :=
  match files with
  | .directory error =>
    (.error (store.remedy pace (store.namedDir pace ++ " could not be created: " ++ error)), record)
  | .lock (.busy _) =>
    (.error ("another server on this edge held " ++ store.named pace host "lock" ++
      " while this request dated the host's next turn"), record)
  | .lock (.lockFile cause) => (.error (store.lockFileRemedy pace cause), record)
  | .lock (.failed reason) => (.error (store.remedy pace reason), record)
  | _ =>
    match record with
    | .turn request => if at_ ≤ request.at_ then (.ok (), record) else write
    | _ => write
where
  write : Except String Unit × Record :=
    (match files with
      | .write error _ => .error (store.remedy pace error)
      | _ => .ok (), record.written ⟨host, at_⟩ files)

end

end CommonMeasure.CrawlDelay
