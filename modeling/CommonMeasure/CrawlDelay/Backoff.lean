import CommonMeasure.CrawlDelay.Turn

namespace CommonMeasure.CrawlDelay

def RETRY_AFTER_CAP : Nat := 3600

def EXPONENTIAL_CAP : Nat := 900

structure Reservation where
  id : String
  failureUntil : Int
  deriving DecidableEq

structure Backoff where
  failures : Nat
  status : Nat
  until_ : Int
  retryAfter : Bool
  capped : Bool
  httpDate : Option Int
  reservation : Option Reservation
  deriving DecidableEq

def Backoff.held (backoff : Backoff) : Option Reservation :=
  backoff.reservation.filter fun held => held.failureUntil < backoff.until_

def Backoff.failureEnd (backoff : Backoff) : Int := (backoff.reservation.map Reservation.failureUntil).getD backoff.until_

inductive Kept where
  | absent
  | unreadable (error : String)
  | unread (error : String)
  | backoff (backoff : Backoff)
  deriving DecidableEq

def Kept.found : Kept → Option Backoff
  | .backoff found => some found
  | _ => none

def Kept.failures (kept : Kept) : Nat := (kept.found.map Backoff.failures).getD 0

inductive Fault where
  | record (reason : String)
  | directory (reason : String)
  | busy (reason : String)
  | lockFile (reason : String)
  | overflow
  deriving DecidableEq

structure Dates where
  retryAfterDate : String → Option Int
  digits : ∀ value : String, value.toList.all Char.isDigit = true → retryAfterDate value = none

def LOCK_DEADLINE : Nat := 2

section

variable (store : Store) (host : String)

def Fault.ofLock : LockRefused → Fault
  | .busy _ => .busy ("the back-off record for " ++ host ++ " could not be locked: another process on this edge holds " ++
      store.pathFor host "lock" ++ " and did not let go within " ++ toString LOCK_DEADLINE ++ "s")
  | .lockFile reason => .lockFile ("the back-off record for " ++ host ++ " could not be locked: " ++ reason)
  | .failed reason => .directory ("the back-off record for " ++ host ++ " could not be locked: " ++ reason)

def Kept.read (host : String) : Kept → Except String (Option Backoff)
  | .absent => .ok none
  | .unreadable error => .error ("the back-off record for " ++ host ++ " is unreadable: " ++ error)
  | .unread error => .error ("the back-off record for " ++ host ++ " cannot be read: " ++ error)
  | .backoff found => .ok (some found)

/-- What the sweep of interrupted writes leaves of the record, where this process sweeps the host at that instant. -/
def Kept.swept (sweep : Option Int) : Kept → Kept
  | .backoff found => if found.failures = 0 ∧ sweep.any (found.until_ ≤ ·) then .absent else .backoff found
  | kept => kept

def Kept.written (next : Backoff) (kept : Kept) : Files → Kept
  | .write _ false => kept
  | _ => .backoff next

def Files.error : Files → Option String
  | .write error _ => some error
  | _ => none

def writeBackoff (backoff : Backoff) (files : Files) (kept : Kept) : Except Fault Unit × Kept :=
  (match files.error with
    | some error => .error (.directory ("the back-off for " ++ host ++ " could not be kept: " ++ error))
    | none => .ok (), kept.written backoff files)

def Kept.removed (kept : Kept) (files : Files) : Kept := if files.error.isSome then kept else .absent

end

def isFailure (status : Nat) : Bool := status = 429 ∨ 500 ≤ status ∧ status < 600

def isWhitespace (c : Char) : Bool :=
  let n := c.toNat
  9 ≤ n ∧ n ≤ 13 ∨ n = 0x20 ∨ n = 0x85 ∨ n = 0xA0 ∨ n = 0x1680 ∨ 0x2000 ≤ n ∧ n ≤ 0x200A ∨ n = 0x2028 ∨ n = 0x2029 ∨
    n = 0x202F ∨ n = 0x205F ∨ n = 0x3000

def trim (value : String) : String :=
  String.ofList ((value.toList.dropWhile isWhitespace).reverse.dropWhile isWhitespace).reverse

def digitsValue (digits : List Char) : Nat := digits.foldl (fun n c => n * 10 + (c.toNat - 48)) 0

section

variable (dates : Dates)

def retryAfterDate (value : String) : Option Int := dates.retryAfterDate (trim value)

def retryAfterSeconds (value : String) (now : Int) : Option Nat :=
  let value := trim value
  if value ≠ "" ∧ value.toList.all Char.isDigit then some (min (digitsValue value.toList) (2 ^ 64 - 1))
  else (retryAfterDate dates value).map fun date => ((date - now).toNat / millisecond + 999) / 1000

def supplied (status : Nat) (retryAfter : Option String) (now : Int) : Option Nat :=
  if status = 429 ∨ status = 503 then retryAfter.bind fun value => retryAfterSeconds dates value now else none

def suppliedDate (status : Nat) (retryAfter : Option String) (now : Int) : Option Int :=
  if (supplied dates status retryAfter now).any (· ≤ RETRY_AFTER_CAP) then
    retryAfter.bind (retryAfterDate dates)
  else none

def answerEnd (latest : Int) (status : Nat) (retryAfter : Option String) (now : Int) (failures : Nat) : Option Int :=
  match suppliedDate dates status retryAfter now with
  | some date => some (max date now)
  | none =>
    let wait := (supplied dates status retryAfter now).getD (min (10 * 2 ^ min (failures - 1) 7) EXPONENTIAL_CAP)
    if now + seconds (min wait RETRY_AFTER_CAP) ≤ latest then some (max (now + seconds (min wait RETRY_AFTER_CAP)) now)
    else none

def countedFailures (now : Int) : Option Backoff → Nat
  | none => 1
  | some old => if old.failureEnd ≤ now ∨ old.failures = 0 then min (old.failures + 1) (2 ^ 32 - 1) else old.failures

def Backoff.later (next old : Backoff) : Backoff :=
  if next.until_ < old.failureEnd then
    { next with
      status := old.status
      until_ := old.failureEnd
      retryAfter := old.retryAfter
      capped := old.capped
      httpDate := old.httpDate }
  else next

def Backoff.upon (next : Backoff) (owns : Bool) : Option Backoff → Backoff
  | none => next
  | some old =>
    match owns, old.reservation with
    | false, some held =>
      { next.later old with
        until_ := max (next.later old).until_ old.until_
        reservation := some { held with failureUntil := (next.later old).until_ } }
    | _, _ => next.later old

def failed (latest : Int) (status : Nat) (retryAfter : Option String) (now : Int) (owns : Bool)
    (previous : Option Backoff) : Option Backoff :=
  (answerEnd dates latest status retryAfter now (countedFailures now previous)).map fun until_ =>
    Backoff.upon {
      failures := countedFailures now previous
      status
      until_
      retryAfter := (supplied dates status retryAfter now).isSome
      capped := (supplied dates status retryAfter now).any (RETRY_AFTER_CAP < ·)
      httpDate := (suppliedDate dates status retryAfter now).filter (· = until_)
      reservation := none } owns previous

def Backoff.settled (old : Backoff) : Backoff := { old with until_ := old.failureEnd, reservation := none }

def Backoff.reset (old : Backoff) (owns : Bool) : Backoff :=
  if owns then { old.settled with failures := 0 } else { old with failures := 0 }

def Backoff.ownedBy (backoff : Backoff) (reservation : Option String) : Bool :=
  backoff.reservation.any fun held => some held.id = reservation

variable (store : Store) (host : String)

def keepAnswer (next : Backoff) (now : Int) (files : Files) (kept : Kept) : Except Fault (Option Backoff) × Kept :=
  if next.until_ ≤ now ∧ next.failures = 0 then
    (match files.error with
      | some error => .error (.directory ("the back-off record for " ++ host ++ " could not be removed: " ++ error))
      | none => .ok (some { next with reservation := none }), kept.removed files)
  else ((writeBackoff host next files kept).1.map fun _ => some next, (writeBackoff host next files kept).2)

def answerLocked (status : Nat) (retryAfter : Option String) (now : Int) (reservation : Option String) (files : Files)
    (kept : Kept) : Except Fault (Option Backoff) × Kept :=
  match kept.read host with
  | .error reason => (.error (.record reason), kept)
  | .ok previous =>
    let owns := previous.any fun old => old.ownedBy reservation
    if isFailure status then
      match failed dates store.platform.latest status retryAfter now owns previous with
      | none => (.error .overflow, kept)
      | some next => keepAnswer host next now files kept
    else
      match previous with
      | none => (.ok none, kept)
      | some old =>
        if old.failures = 0 ∧ !owns then (.ok none, kept) else keepAnswer host (old.reset owns) now files kept

/-- Record an answer. `early` is what the record holds before the lock is taken, and `sweep` the instant of the
sweep, where this process has not swept the host before. -/
def Store.answer (status : Nat) (retryAfter : Option String) (now : Int) (reservation : Option String) (early : Kept)
    (sweep : Option Int) (files : Files) (kept : Kept) : Except Fault (Option Backoff) × Kept :=
  let locked :=
    match files with
    | .directory error => (.error (.directory ("the back-off store cannot be created: " ++ error)), kept)
    | .lock refused => (.error (Fault.ofLock store host refused), kept)
    | _ => answerLocked dates store host status retryAfter now reservation files (kept.swept sweep)
  if isFailure status then locked
  else match early.read host with
    | .error reason => (.error (.record reason), kept)
    | .ok none => (.ok none, kept)
    | .ok (some old) => if old.failures = 0 ∧ old.reservation = none then (.ok none, kept) else locked

end

section

variable (host : String)

def release (id : String) (now : Int) (sweep : Option Int) (files : Files) (kept : Kept) :
    Except String Unit × Kept :=
  match files with
  | .lock (.busy reason) | .lock (.failed reason) =>
    (.error ("the back-off record for " ++ host ++ " could not be locked: " ++ reason), kept)
  | .lock (.lockFile cause) =>
    (.error ("the back-off record for " ++ host ++ " could not be locked: " ++ cause ++ "; " ++ LOCK_FILE_REMEDY), kept)
  | _ =>
    let kept := kept.swept sweep
    match kept.read host with
    | .error reason => (.error reason, kept)
    | .ok none => (.ok (), kept)
    | .ok (some old) =>
      if !old.ownedBy (some id) then (.ok (), kept)
      else if old.settled.until_ ≤ now ∧ old.failures = 0 then
        (match files.error with
          | some error => .error error
          | none => .ok (), kept.removed files)
      else
        (match files.error with
          | some error => .error ("the back-off for " ++ host ++ " could not be kept: " ++ error)
          | none => .ok (), kept.written old.settled files)

inductive Reserve where
  /-- There is no record any more. -/
  | free
  /-- The record is not the one read. -/
  | changed
  | reserved
  deriving DecidableEq

/-- Reserve the host for one send under the host's lock, where the record is still the one read before it. -/
def Store.reserve (store : Store) (read : Backoff) (id : String) (now : Int) (timeout : Nat) (sweep : Option Int)
    (files : Files)
    (kept : Kept) : Except Fault Reserve × Kept :=
  match files with
  | .lock refused => (.error (Fault.ofLock store host refused), kept)
  | _ =>
    let kept := kept.swept sweep
    match kept.read host with
    | .error reason => (.error (.record reason), kept)
    | .ok none => (.ok .free, kept)
    | .ok (some current) =>
      if current ≠ read then (.ok .changed, kept)
      else match store.platform.checkedAdd now timeout with
        | none => (.error .overflow, kept)
        | some deadline =>
          let next := { read with until_ := deadline, reservation := some ⟨id, read.failureEnd⟩ }
          ((writeBackoff host next files kept).1.map fun _ => .reserved, (writeBackoff host next files kept).2)

end

end CommonMeasure.CrawlDelay
