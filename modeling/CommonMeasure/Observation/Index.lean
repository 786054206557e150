import CommonMeasure.Evidence.Records
import CommonMeasure.Foundation.Runs
import CommonMeasure.Observation.Journal

namespace CommonMeasure.Observation

open Json Evidence

def COMPACT_AFTER : Nat := 1024

structure Index (canonicalUuid : String → Bool) where
  /-- Every whole line of the log before this byte is indexed. -/
  offset : Nat
  tail : String
  facts : Facts canonicalUuid
  /-- The journal does not hold this index. -/
  rewrite : Bool

/-- Where a catch-up ends with an error: it cannot open the log, or read its length or digest, or its scan fails with
some of the records passed on, or the digest of what it has read cannot be read. -/
inductive Stop where
  | never
  | opens
  | checks
  | scans (passed : Nat)
  | digests
  deriving DecidableEq

abbrev Order := { order : List Fact → List Fact // ∀ facts, (order facts).Perm facts }

/-- How a write of the journal ends, in the file it has opened: whole, or with an error after some bytes. -/
inductive Wrote where
  | whole (file : Nat)
  | cut (file bytes : Nat)

section

variable {canonicalUuid : String → Bool} (J : Reader) (digest : Bytes → String)

def tailDigest (log : Bytes) (offset : Nat) : String := digest ((log.take offset).drop (offset - TAIL))

def Index.reset : Index canonicalUuid := ⟨0, digest [], default, true⟩

def Index.load (journal : Option Bytes) : Index canonicalUuid :=
  match journal.bind (readJournal J canonicalUuid) with
  | some account => ⟨account.offset, account.tail.getD "", account.facts, COMPACT_AFTER < account.entries⟩
  | none => Index.reset digest

def Index.checked (index : Index canonicalUuid) (log : Bytes) : Index canonicalUuid :=
  if log.length < index.offset ∨ tailDigest digest log index.offset ≠ index.tail then Index.reset digest else index

def Index.scanned (index : Index canonicalUuid) (log : Bytes) : Scanned :=
  scan J log ⟨index.offset, 0⟩ .refuse ⟨"", "", ""⟩

def Index.catchUp (index : Index canonicalUuid) (log : Bytes) (stop : Stop) (order : Order) :
    Index canonicalUuid × Option Entry × Except Unit Nat :=
  match stop with
  | .opens => (Index.reset digest, none, .error ())
  | .checks => (index, none, .error ())
  | .scans passed =>
    let index := index.checked digest log
    ({ index with facts := (index.facts.observeAll ((index.scanned J log).records.take passed)).1 }, none, .error ())
  | _ =>
    let index := index.checked digest log
    let scanned := index.scanned J log
    let observed := index.facts.observeAll scanned.records
    let after := { index with offset := scanned.end_.offset, facts := observed.1 }
    let outcome := if scanned.fault.isNone then .ok scanned.end_.line else .error ()
    if index.offset < after.offset ∨ index.rewrite = true then
      if stop = .digests then (after, none, .error ())
      else
        let tail := tailDigest digest log after.offset
        ({ after with tail },
          some ⟨VERSION, if index.rewrite then 0 else index.offset, after.offset, tail,
            if index.rewrite then order.1 observed.1.all else observed.2⟩,
          outcome)
    else (after, none, outcome)

def writeJournal (rewrite : Bool) (entry : Entry) (wrote : Wrote) (journals : List Bytes) : List Bytes × Bool :=
  let line := entry.line ++ [newline]
  match rewrite, wrote with
  | true, .whole _ => (line :: journals, true)
  | true, .cut _ _ => (journals, false)
  | false, .whole file => (journals.modify file (· ++ line), file < journals.length)
  | false, .cut file bytes => (journals.modify file (· ++ line.take bytes), false)

end

/-- A process's index, the entry it has yet to write with what its call will return, and whether its last call was a
catch-up that returned. -/
structure Process (canonicalUuid : String → Bool) where
  index : Index canonicalUuid
  writing : Option (Entry × Bool)
  returned : Bool

structure Session (ι : Type*) (canonicalUuid : String → Bool) where
  records : List Value
  journals : List Bytes
  processes : ι → Process canonicalUuid

def logOf (records : List Value) : Bytes := joinLines (records.map write)

inductive Act (ι : Type*) (J : Reader) where
  | grows (record : Value) (whole : Evidence.Entry J record)
  /-- The process begins anew, having read that much of a journal it opened, or nothing. -/
  | loads (i : ι) (opened : Option (Nat × Nat))
  | catchesUp (i : ι) (stop : Stop) (order : Order)
  | writes (i : ι) (wrote : Wrote)

section

variable {ι : Type*} [DecidableEq ι] {canonicalUuid : String → Bool} {J : Reader} (digest : Bytes → String)

def Session.set (session : Session ι canonicalUuid) (i : ι) (process : Process canonicalUuid) : Session ι canonicalUuid :=
  { session with processes := Function.update session.processes i process }

def journalRead (journals : List Bytes) (opened : Option (Nat × Nat)) : Option Bytes :=
  opened.bind fun at_ => (journals[at_.1]?).map (·.take at_.2)

def Session.step (session : Session ι canonicalUuid) (act : Act ι J) : Session ι canonicalUuid :=
  match act with
  | .grows record _ =>
    if (logOf (session.records ++ [record])).length < maxFile then
      { session with records := session.records ++ [record] }
    else session
  | .loads i opened => session.set i ⟨Index.load J digest (journalRead session.journals opened), none, false⟩
  | .catchesUp i stop order =>
    match (session.processes i).writing with
    | some _ => session
    | none =>
      match (session.processes i).index.catchUp J digest (logOf session.records) stop order with
      | (index, some entry, outcome) => session.set i ⟨index, some (entry, outcome.toBool), false⟩
      | (index, none, outcome) => session.set i ⟨index, none, outcome.toBool⟩
  | .writes i wrote =>
    match session.processes i with
    | ⟨index, some (entry, outcome), _⟩ =>
      let (journals, done) := writeJournal index.rewrite entry wrote session.journals
      { session.set i ⟨{ index with rewrite := !done }, none, outcome⟩ with journals }
    | _ => session

end

end CommonMeasure.Observation
