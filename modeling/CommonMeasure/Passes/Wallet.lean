import CommonMeasure.Foundation.Runs
import CommonMeasure.Foundation.Text
import Mathlib.Data.List.Count

namespace CommonMeasure.Passes

structure HeldPass where
  origin_info : List String
  token : String
  deriving DecidableEq

structure WalletFile where
  anchor : String
  key_id : Option String
  token_key : Option String
  passes : List HeldPass
  deriving DecidableEq

inductive File where
  | absent
  | wallet (held : WalletFile)
  | other (reason : String)

structure AnchorKey where
  key_id : Bytes
  token_key : Bytes

structure Libraries (Token Challenge Stopped : Type) where
  decode_token : String → Except String Token
  /-- `tls_serialize`, and base64url of that. -/
  encode_token : Token → Except String String
  challenge_digest : Token → Bytes
  token_key_id : Token → Bytes
  /-- `TokenChallenge::digest`. -/
  digest_of : Challenge → Except String Bytes
  origin_info : Challenge → List String
  hex : Bytes → String
  encode : Bytes → String
  redacting : String → Stopped → Stopped

variable {Token Challenge Stopped : Type} (L : Libraries Token Challenge Stopped)

def WalletFile.new (anchor_origin : String) : WalletFile := ⟨anchor_origin, none, none, []⟩

/-- `Wallet::open`, once its lock is held. -/
def opened (anchor_origin path : String) : File → Except String WalletFile
  | .other reason => .error (path ++ " is not a pass wallet: " ++ reason)
  | .absent => .ok (WalletFile.new anchor_origin)
  | .wallet held =>
    if held.anchor ≠ anchor_origin then
      .error (path ++ " holds passes from " ++ held.anchor ++ ", not " ++ anchor_origin)
    else .ok held

def tokens (held : WalletFile) : Except String (List Token) := held.passes.mapM fun pass => L.decode_token pass.token

def heldFor (held : WalletFile) (challenge : Challenge) : Except String Nat := do
  let digest ← L.digest_of challenge
  let tokens ← tokens L held
  .ok (tokens.countP fun token => L.challenge_digest token = digest)

structure SourceChallenge (Challenge : Type) where
  challenge : Challenge
  key_id : Bytes

inductive Wanted (Challenge : Type) where
  | take (challenge : Challenge)
  | take_answering (source : SourceChallenge Challenge)

def Wanted.answers : Wanted Challenge → Except String (Token → Bool)
  | .take challenge => do
    let digest ← L.digest_of challenge
    .ok fun token => L.challenge_digest token = digest
  | .take_answering source => do
    let digest ← L.digest_of source.challenge
    .ok fun token => L.challenge_digest token = digest && L.token_key_id token = source.key_id

def answersHeld (answers : Token → Bool) (pass : HeldPass) : Bool :=
  match L.decode_token pass.token with
  | .ok token => answers token
  | .error _ => false

def take_where (wanted : Wanted Challenge) (held : WalletFile) : Except String (Option (HeldPass × WalletFile)) := do
  let answers ← wanted.answers L
  let _ ← tokens L held
  .ok ((held.passes.find? (answersHeld L answers)).map fun pass =>
    (pass, { held with passes := held.passes.eraseP (answersHeld L answers) }))

def underKey (key : Bytes) (pass : HeldPass) : Bool := answersHeld L (fun token => L.token_key_id token = key) pass

def sift (current : Bytes) : List HeldPass → Except String (List HeldPass)
  | [] => .ok []
  | pass :: rest => do
    let token ← L.decode_token pass.token
    let kept ← sift current rest
    .ok (if L.token_key_id token = current then pass :: kept else kept)

inductive Ending (Stopped : Type) where
  | asked
  | stopped (why : Stopped)
  | failed (error : String)

def gather (credential : String) (challenge : Challenge) :
    List (Except Stopped Token) → List HeldPass × Ending Stopped
  | [] => ([], .asked)
  | .error why :: _ => ([], .stopped (L.redacting credential why))
  | .ok token :: rest =>
    match L.encode_token token with
    | .error e => ([], .failed e)
    | .ok text =>
      let more := gather credential challenge rest
      (⟨L.origin_info challenge, text⟩ :: more.1, more.2)

structure Refill (Stopped : Type) where
  anchor : String
  origin_info : List String
  requested : Nat
  obtained : Nat
  key_id : String
  held : Nat
  discarded : Nat
  stopped : Option Stopped

/-- A refill as far as its save: the wallet in memory then, the passes obtained, how many were dropped, and an error that
ends it before the save. -/
structure Refilling (Stopped : Type) where
  memory : WalletFile
  obtained : List HeldPass
  discarded : Nat
  ending : Ending Stopped

def refill (credential : String) (challenge : Challenge) (key : AnchorKey) (answers : List (Except Stopped Token))
    (held : WalletFile) : Refilling Stopped :=
  match sift L key.key_id held.passes with
  -- The passes were moved out of the wallet to be decoded.
  | .error e => ⟨{ held with passes := [] }, [], 0, .failed e⟩
  | .ok kept =>
    let got := gather L credential challenge answers
    ⟨{ held with
        key_id := some (L.hex key.key_id)
        token_key := some (L.encode key.token_key)
        passes := kept ++ got.1 }, got.1, held.passes.length - kept.length, got.2⟩

def Ending.error : Ending Stopped → Option String
  | .failed e => some e
  | .asked | .stopped _ => none

def Ending.stop : Ending Stopped → Option Stopped
  | .stopped why => some why
  | .asked | .failed _ => none

def report (challenge : Challenge) (key : AnchorKey) (requested : Nat) (r : Refilling Stopped) :
    Except String (Refill Stopped) := do
  let held ← heldFor L r.memory challenge
  .ok {
    anchor := r.memory.anchor
    origin_info := L.origin_info challenge
    requested
    obtained := r.obtained.length
    key_id := L.hex key.key_id
    held
    discarded := r.discarded
    stopped := r.ending.stop }

/-- How a save ended: it returned, it returned an error, or its process stopped, the file replaced or not. -/
inductive Saved where
  | returned
  | failed (replaced : Bool) (error : String)
  | stopped (replaced : Bool)

def Saved.replaced : Saved → Bool
  | .returned => true
  | .failed replaced _ | .stopped replaced => replaced

inductive Told (Stopped : Type) where
  | opened
  | took (pass : Option HeldPass)
  | refilled (report : Refill Stopped)

structure System (Pid Stopped : Type) where
  file : File
  wallet : Option (Pid × WalletFile)
  /-- Every pass the file has held. -/
  held : List HeldPass
  /-- The passes takes returned. -/
  returned : List HeldPass
  /-- The passes takes removed. -/
  taken : List HeldPass
  /-- The passes refills obtained. -/
  obtained : List HeldPass
  /-- The passes refills dropped for another key than the one listed, and that key. -/
  discarded : List (HeldPass × Bytes)
  told : Option (Except String (Told Stopped))

def File.passes : File → List HeldPass
  | .wallet held => held.passes
  | .absent | .other _ => []

@[simp] theorem passes_wallet (held : WalletFile) : (File.wallet held).passes = held.passes := rfl

def System.start {Pid : Type} (file : File) : System Pid Stopped := ⟨file, none, file.passes, [], [], [], [], none⟩

inductive Act (Pid Token Challenge Stopped : Type) where
  | opens (pid : Pid) (anchor_origin path : String)
  | takes (pid : Pid) (wanted : Wanted Challenge) (saved : Saved)
  | refills (pid : Pid) (credential : String) (challenge : Challenge) (directory : Except String AnchorKey)
      (answers : List (Except Stopped Token)) (saved : Saved)
  | drops (pid : Pid)

variable {Pid : Type} [DecidableEq Pid]

def System.save (s : System Pid Stopped) (pid : Pid) (memory : WalletFile) (saved : Saved) : System Pid Stopped :=
  { s with
    file := if saved.replaced then .wallet memory else s.file
    held := if saved.replaced then s.held ++ memory.passes else s.held
    wallet := match saved with
      | .stopped _ => none
      | .returned | .failed _ _ => some (pid, memory)
    told := match saved with
      | .failed _ error => some (.error error)
      | .returned | .stopped _ => none }

def System.memory (s : System Pid Stopped) (pid : Pid) : Option WalletFile :=
  (s.wallet.filter fun holder => holder.1 = pid).map Prod.snd

def Saved.isReturned : Saved → Bool
  | .returned => true
  | .failed _ _ | .stopped _ => false

def tookStep (wanted : Wanted Challenge) (saved : Saved) (pid : Pid) (memory : WalletFile) (s : System Pid Stopped) :
    System Pid Stopped :=
  match take_where L wanted memory with
  | .error e => { s with told := some (.error e) }
  | .ok none => { s with told := some (.ok (.took none)) }
  | .ok (some (pass, memory)) =>
    let s := { s.save pid memory saved with taken := s.taken ++ [pass] }
    if saved.isReturned then { s with returned := s.returned ++ [pass], told := some (.ok (.took (some pass))) } else s

def refillStep (credential : String) (challenge : Challenge) (key : AnchorKey) (answers : List (Except Stopped Token))
    (saved : Saved) (pid : Pid) (memory : WalletFile) (s : System Pid Stopped) : System Pid Stopped :=
  let r := refill L credential challenge key answers memory
  let dropped := (memory.passes.filter fun pass => !underKey L key.key_id pass).map fun pass => (pass, key.key_id)
  let s := { s with obtained := s.obtained ++ r.obtained, discarded := s.discarded ++ dropped }
  match r.ending.error with
  | some e => { s with wallet := some (pid, r.memory), told := some (.error e) }
  | none =>
    let s := s.save pid r.memory saved
    if saved.isReturned then { s with told := some ((report L challenge key answers.length r).map .refilled) } else s

def step (s : System Pid Stopped) : Act Pid Token Challenge Stopped → System Pid Stopped
  | .opens pid anchor_origin path =>
    if s.wallet.isSome then s
    else match opened anchor_origin path s.file with
    | .error e => { s with told := some (.error e) }
    | .ok memory => { s with wallet := some (pid, memory), told := some (.ok .opened) }
  | .takes pid wanted saved =>
    match s.memory pid with
    | none => s
    | some memory => tookStep L wanted saved pid memory s
  | .refills pid credential challenge directory answers saved =>
    match s.memory pid, directory with
    | none, _ => s
    | some _, .error e => { s with told := some (.error e) }
    | some memory, .ok key => refillStep L credential challenge key answers saved pid memory s
  | .drops pid => { s with wallet := s.wallet.filter fun holder => holder.1 ≠ pid, told := none }

end CommonMeasure.Passes
