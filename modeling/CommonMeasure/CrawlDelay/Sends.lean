import CommonMeasure.CrawlDelay.Backoff

namespace CommonMeasure.CrawlDelay

/-- Milliseconds as seconds for a reader: `2000` is `2`, `1500` is `1.5`. -/
def secondsText (ms : Nat) : String :=
  let fraction := [ms % 1000 / 100, ms % 100 / 10, ms % 10].map Nat.digitChar
  if ms % 1000 = 0 then toString (ms / 1000)
  else toString (ms / 1000) ++ "." ++ String.ofList (fraction.reverse.dropWhile (· = '0')).reverse

inductive Decision where
  | sends
  | reserves (read : Backoff) (timeout : Nat)
  | sleeps (sleep : Nat)
  | refused (reason : String)

section

variable (store : Store) (host : String) (pace : Pace)

def Store.refusal (backoff : Backoff) (now : Int) (budget : Nat) : String :=
  match pace, backoff.held with
  | .hosted, held =>
    match backoff.httpDate.filter fun date => date = backoff.until_ ∧ held = none with
    | some until_ => host ++ " is in back-off until " ++ store.platform.rfc3339 until_
    | none => host ++ " is in back-off"
  | .own, some held =>
    let period := if now < held.failureUntil then
        ", and " ++ host ++ " is in back-off until " ++ store.platform.rfc3339 held.failureUntil ++ " after HTTP " ++
          toString backoff.status
      else ""
    "another request to " ++ host ++ " is under way and holds the host's turn until " ++
      store.platform.rfc3339 backoff.until_ ++ period ++ "; this fetch may spend no more time waiting"
  | .own, none =>
    host ++ " is in back-off until " ++ store.platform.rfc3339 backoff.until_ ++ " after HTTP " ++
      toString backoff.status ++ "; the wait exceeds the " ++ secondsText (millis budget) ++
      "s this fetch may still spend waiting"

def Store.decision (backoff : Backoff) (now : Int) (timeout : Option Nat) (budget : Nat) : Decision :=
  let wait := (backoff.until_ - now).toNat
  if wait = 0 then
    if backoff.failures = 0 then .sends
    else match timeout with
      | none => .sends
      | some timeout => .reserves backoff timeout
  else
    let reserved := backoff.held.isSome
    if (if reserved then budget = 0 else budget < wait) then .refused (store.refusal host pace backoff now budget)
    else .sleeps (if reserved then min (min wait budget) (fromMillis 50) else wait)

end

structure Holding where
  id : String
  deadline : Int

inductive Doing where
  | idle
  | looking (timeout : Option Nat) (allowance : Nat)
  | looked (read : Kept) (timeout : Option Nat) (allowance : Nat)
  | locking (read : Backoff) (timeout : Nat) (allowance : Nat)
  | answering (status : Nat) (retryAfter : Option String) (now : Int) (reservation : Option String)
  | recording (status : Nat) (retryAfter : Option String) (now : Int) (reservation : Option String) (early : Kept)
  | releasing (id : String) (now : Int)

/-- One call's pacing of the host: its reservation, what it may still sleep, where it stands, and the end it last
read from the host's record. -/
structure Sender where
  reserved : Option Holding
  budget : Nat
  doing : Doing
  lastRead : Option Int

structure Sent (ι : Type*) where
  sender : ι
  at_ : Int
  lastRead : Option Int

/-- The host's record and its senders. `drawn` are the reservations' names so far, `ended` those of them that were
answered or given back, and `sent` the sends so far. -/
structure World (ι : Type*) where
  kept : Kept
  clock : Int
  senders : ι → Sender
  drawn : List String
  ended : List String
  sent : List (Sent ι)

inductive Act (ι : Type*) where
  | tick (duration : Nat)
  /-- Another call's sweep of the host. -/
  | sweep
  | begins (i : ι) (timeout : Option Nat) (allowance : Nat)
  | reads (i : ι)
  | decides (i : ι) (left : Nat)
  | reserves (i : ι) (id : String) (left : Nat) (sweeps : Bool) (files : Files)
  | answered (i : ι) (status : Nat) (retryAfter : Option String)
  | looksEarly (i : ι)
  | records (i : ι) (sweeps : Bool) (files : Files)
  | drops (i : ι) (id : String)
  | releases (i : ι) (sweeps : Bool) (files : Files)

section

variable {ι : Type*} [DecidableEq ι] (dates : Dates) (store : Store) (host : String) (pace : Pace)

def World.set (world : World ι) (i : ι) (sender : Sender) : World ι :=
  { world with senders := Function.update world.senders i sender }

def World.sends (world : World ι) (i : ι) (sender : Sender) : World ι :=
  { world.set i { sender with doing := .idle } with sent := world.sent ++ [⟨i, world.clock, sender.lastRead⟩] }

def World.swept (world : World ι) (sweeps : Bool) : Option Int := if sweeps then some world.clock else none

def World.reads (world : World ι) (i : ι) (sender : Sender) (timeout : Option Nat) (allowance : Nat) : World ι :=
  match world.kept.read host with
  | .error _ => world.set i { sender with doing := .idle }
  | .ok none => world.sends i { sender with lastRead := none }
  | .ok (some found) =>
    world.set i { sender with doing := .looked world.kept timeout allowance, lastRead := some found.until_ }

def World.decides (world : World ι) (i : ι) (sender : Sender) (backoff : Backoff) (timeout : Option Nat)
    (allowance left : Nat) : World ι :=
  match store.decision host pace backoff world.clock timeout (min (min sender.budget left) allowance) with
  | .sends => world.sends i sender
  | .reserves read timeout => world.set i { sender with doing := .locking read timeout allowance }
  | .refused _ => world.set i { sender with doing := .idle }
  | .sleeps sleep =>
    world.set i { sender with budget := sender.budget - sleep, doing := .looking timeout (allowance - sleep) }

def World.reserves (world : World ι) (i : ι) (sender : Sender) (read : Backoff) (timeout allowance : Nat) (id : String)
    (left : Nat) (sweeps : Bool) (files : Files) : World ι :=
  let lastRead := (world.kept.swept (world.swept sweeps)).found.map Backoff.until_
  match store.reserve host read id world.clock (min timeout left) (world.swept sweeps) files world.kept with
  | (result, after) =>
    let moved := match result with
      | .error _ => world.set i { sender with doing := .idle }
      | .ok .free => world.sends i { sender with lastRead := none }
      | .ok .changed => world.set i { sender with doing := .looking (some timeout) allowance, lastRead }
      | .ok .reserved =>
        world.sends i { sender with reserved := some ⟨id, world.clock + (min timeout left : Nat)⟩, lastRead }
    { moved with kept := after, drawn := id :: world.drawn }

def World.records (world : World ι) (i : ι) (sender : Sender) (status : Nat) (retryAfter : Option String) (now : Int)
    (reservation : Option String) (early : Kept) (sweeps : Bool) (files : Files) : World ι :=
  match store.answer dates host status retryAfter now reservation early (world.swept sweeps) files world.kept with
  | (.ok _, after) =>
    { world.set i { sender with reserved := none, doing := .idle } with
      kept := after
      ended := reservation.toList ++ world.ended }
  | (.error _, after) =>
    { world.set i { sender with
        reserved := if isFailure status then none else sender.reserved
        doing := .idle } with kept := after }

def World.drops (world : World ι) (i : ι) (sender : Sender) (id : String) : World ι :=
  if sender.reserved.map Holding.id = some id then
    world.set i { sender with reserved := none, doing := .releasing id world.clock }
  else world

def World.releases (world : World ι) (i : ι) (sender : Sender) (id : String) (now : Int) (sweeps : Bool)
    (files : Files) : World ι :=
  match release host id now (world.swept sweeps) files world.kept with
  | (.ok (), after) =>
    { world.set i { sender with doing := .idle } with kept := after, ended := id :: world.ended }
  | (.error _, after) => { world.set i { sender with doing := .idle } with kept := after }

def World.step (world : World ι) (act : Act ι) : World ι :=
  match act with
  | .tick duration => { world with clock := world.clock + duration }
  | .sweep => { world with kept := world.kept.swept (some world.clock) }
  | .begins i timeout allowance =>
    match (world.senders i).doing with
    | .idle => world.set i { world.senders i with doing := .looking timeout allowance }
    | _ => world
  | .reads i =>
    match (world.senders i).doing with
    | .looking timeout allowance => world.reads host i (world.senders i) timeout allowance
    | _ => world
  | .decides i left =>
    match (world.senders i).doing with
    | .looked (.backoff backoff) timeout allowance =>
      world.decides store host pace i (world.senders i) backoff timeout allowance left
    | _ => world
  | .reserves i id left sweeps files =>
    match (world.senders i).doing with
    | .locking read timeout allowance =>
      world.reserves store host i (world.senders i) read timeout allowance id left sweeps files
    | _ => world
  | .answered i status retryAfter =>
    match (world.senders i).doing with
    | .idle =>
      world.set i { world.senders i with
        doing := .answering status retryAfter world.clock ((world.senders i).reserved.map Holding.id) }
    | _ => world
  | .looksEarly i =>
    match (world.senders i).doing with
    | .answering status retryAfter now reservation =>
      world.set i { world.senders i with doing := .recording status retryAfter now reservation world.kept }
    | _ => world
  | .records i sweeps files =>
    match (world.senders i).doing with
    | .recording status retryAfter now reservation early =>
      world.records dates store host i (world.senders i) status retryAfter now reservation early sweeps files
    | _ => world
  | .drops i id =>
    match (world.senders i).doing with
    | .idle => world.drops i (world.senders i) id
    | _ => world
  | .releases i sweeps files =>
    match (world.senders i).doing with
    | .releasing id now => world.releases host i (world.senders i) id now sweeps files
    | _ => world

end

end CommonMeasure.CrawlDelay
