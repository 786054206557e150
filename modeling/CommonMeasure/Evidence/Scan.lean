import CommonMeasure.Evidence.Log
import Mathlib.Data.List.Infix

/-!
# The evidence log: how it is read

One scan serves every reader.
-/

namespace CommonMeasure.Evidence
open Json

structure LogPosition where
  offset : Nat
  line : Nat
  deriving DecidableEq

instance : Inhabited LogPosition := ⟨⟨0, 0⟩⟩

inductive TornTail where
  | refuse | forecast | repair
  deriving DecidableEq

/-- Why a log does not read past some line: `content` is the line whose parse error the message gives. -/
inductive Fault where
  | unparsed (name : String) (content : Bytes) (why : String)
  | unterminated (name : String)
  deriving DecidableEq

def Fault.message (parseError : Bytes → String) : Fault → String
  | .unparsed name content why => name ++ " does not parse (" ++ parseError content ++ "), and " ++ why
  | .unterminated name => name ++ " ends without its newline and no process is writing it: a write was cut " ++
      "short; the next append to the log, or the next relay run, marks it with an evidence_gap record and " ++
      "readers then skip it"

structure Held where
  line : Nat
  name : String
  bytes : Nat
  content : Bytes

def Held.fault (held : Held) (why : String) : Fault := .unparsed held.name held.content why

def lineName (numbered : Bool) (line start : Nat) : String :=
  if numbered then "line " ++ toString line else "the line at byte " ++ toString start

def isAsciiWhitespace (b : UInt8) : Bool := b == 32 || b == 9 || b == 10 || b == 12 || b == 13

def blank (content : Bytes) : Bool := content.all isAsciiWhitespace

/-- The `torn_line_bytes` of a line that is an `evidence_gap` record marking the line before it. -/
def tornLineGap (J : Reader) (line : Bytes) : Option Nat :=
  if utf8 TORN_LINE_BYTES <:+: line then
    (J.fromSlice line).bind fun record =>
      if (record.get "event").asStr = some "evidence_gap" then ((record.get "payload").get TORN_LINE_BYTES).asU64
      else none
  else none

/-- A scan under way: `end_` is just past the last line settled, `cursor` just past the last consumed. -/
structure Scan where
  end_ : LogPosition
  tears : List Tear
  fault : Option Fault
  cursor : LogPosition
  held : Option Held
  /-- The records passed to the caller, each with the offset its line starts at. -/
  records : List (Value × Nat)

structure Scanned where
  end_ : LogPosition
  tears : List Tear
  fault : Option Fault
  records : List (Value × Nat)
  file : Bytes

def Scan.start (from_ : LogPosition) : Scan := ⟨from_, [], none, from_, none, []⟩

def Scan.scanned (s : Scan) (file : Bytes) : Scanned := ⟨s.end_, s.tears, s.fault, s.records, file⟩

section

variable (J : Reader)

def scanLine (numbered : Bool) (s : Scan) (content : Bytes) : Scan :=
  let start := s.cursor.offset
  let cursor : LogPosition := ⟨s.cursor.offset + (content.length + 1), s.cursor.line + 1⟩
  if blank content then
    match s.held with
    | some held => { s with cursor, held := none, fault := some (held.fault "the next line is blank") }
    | none => { s with cursor, end_ := cursor }
  else
    match J.fromSlice content with
    | some record =>
      match s.held with
      | some torn =>
        if tornLineGap J content = some torn.bytes then
          { s with
            cursor, held := none, end_ := cursor
            tears := s.tears ++ [⟨torn.line, torn.bytes, true⟩]
            records := s.records ++ [(record, start)] }
        else
          { s with
            cursor, held := none
            fault := some (torn.fault
              "the next line is not the evidence_gap record of a torn line of that length") }
      | none => { s with cursor, end_ := cursor, records := s.records ++ [(record, start)] }
    | none =>
      match s.held with
      | some earlier =>
        { s with cursor, held := none, fault := some (earlier.fault "the next line does not parse either") }
      | none => { s with cursor, held := some ⟨cursor.line, lineName numbered cursor.line start, content.length, content⟩ }

def scanLines (numbered : Bool) (s : Scan) : List Bytes → Scan
  | [] => s
  | line :: rest => if s.fault.isSome then s else scanLines numbered (scanLine J numbered s line) rest

def scanEnd (s : Scan) : Scan :=
  match s.fault, s.held with
  | none, some held => { s with fault := some (held.fault "no evidence_gap record of a torn line follows it") }
  | _, _ => s

/-- A final line `rest` without its newline, which no process is writing: the append lock is held, and the
line has been read again. -/
def scanTornTail (numbered : Bool) (file : Bytes) (s : Scan) (rest : Bytes) (tail : TornTail) (clock : Clock) : Scanned :=
  match tail with
  | .refuse =>
    Scan.scanned { s with fault := some (.unterminated (lineName numbered (s.cursor.line + 1) s.cursor.offset)) } file
  | .forecast =>
    match s.held with
    | some held =>
      Scan.scanned { s with fault := some (held.fault "the next line is not the record of a torn line") } file
    | none =>
      let tear : Tear := ⟨s.cursor.line + 1, rest.length, false⟩
      -- Marking a whole record only adds its newline.
      let records := s.records ++ ((J.fromSlice rest).map fun record => (record, s.cursor.offset)).toList
      Scan.scanned { s with records, tears := s.tears ++ [tear] } file
  | .repair =>
    let marked := file ++ ((repairTornTail file clock).map Prod.snd).getD []
    (scanEnd (scanLines J numbered s (splitLines (marked.drop s.cursor.offset)).1)).scanned marked

/-- Scan the log from `from_`. -/
def scan (file : Bytes) (from_ : LogPosition) (tail : TornTail) (clock : Clock) : Scanned :=
  let numbered := from_.offset == 0 || 0 < from_.line
  let parts := splitLines (file.drop from_.offset)
  let s := scanLines J numbered (.start from_) parts.1
  if s.fault.isSome then s.scanned file
  else if parts.2 = [] then (scanEnd s).scanned file
  else scanTornTail J numbered file s parts.2 tail clock

def readWith (file : Bytes) (tail : TornTail) (clock : Clock) : Except Fault (List Value × List Tear) :=
  let scanned := scan J file default tail clock
  match scanned.fault with
  | some fault => .error fault
  | none => .ok (scanned.records.map Prod.fst, scanned.tears)

def read (file : Bytes) : Except Fault (List Value) := (readWith J file .refuse ⟨"", "", ""⟩).map Prod.fst

end

/-! ### The logs that read -/

inductive Settled (J : Reader) : List Bytes → List Value → Prop
  | nil : Settled J [] []
  | blank {lines records line} : Settled J lines records → blank line = true → Settled J (lines ++ [line]) records
  | record {lines records line value} : Settled J lines records → blank line = false →
      J.fromSlice line = some value → Settled J (lines ++ [line]) (records ++ [value])
  | torn {lines records line gap value} : Settled J lines records → blank line = false → J.fromSlice line = none →
      blank gap = false → J.fromSlice gap = some value → tornLineGap J gap = some line.length →
      Settled J (lines ++ [line, gap]) (records ++ [value])

def Holding (J : Reader) (lines : List Bytes) (line : Bytes) (records : List Value) : Prop :=
  ∃ settled, lines = settled ++ [line] ∧ Settled J settled records ∧ blank line = false ∧ J.fromSlice line = none

def Standing (J : Reader) (lines : List Bytes) (s : Scan) : Prop :=
  match s.held with
  | none => Settled J lines (s.records.map Prod.fst)
  | some held => Holding J lines held.content (s.records.map Prod.fst) ∧ held.bytes = held.content.length

variable {J : Reader}

theorem scanLines_append (numbered : Bool) (s : Scan) (a b : List Bytes) :
    scanLines J numbered s (a ++ b) = scanLines J numbered (scanLines J numbered s a) b := by
  induction a generalizing s with
  | nil => rfl
  | cons line a ih =>
    rw [List.cons_append, scanLines, scanLines]
    split
    · rename_i failed
      cases b with
      | nil => rfl
      | cons next b => rw [scanLines, if_pos failed]
    · exact ih _

theorem scanLines_one (numbered : Bool) {s : Scan} (ok : s.fault = none) (line : Bytes) :
    scanLines J numbered s [line] = scanLine J numbered s line := by
  simp [scanLines, ok]

theorem scanLine_standing {numbered : Bool} {lines : List Bytes} {line : Bytes} {s : Scan} (standing : Standing J lines s)
    (next : (scanLine J numbered s line).fault = none) : Standing J (lines ++ [line]) (scanLine J numbered s line) := by
  unfold scanLine at next ⊢
  unfold Standing at standing
  cases empty : blank line with
  | true =>
    cases heldIs : s.held with
    | some held => simp [empty, heldIs] at next
    | none =>
      rw [heldIs] at standing
      simpa [Standing, empty, heldIs] using standing.blank empty
  | false =>
    cases parsed : J.fromSlice line with
    | some value =>
      cases heldIs : s.held with
      | some held =>
        rw [heldIs] at standing
        obtain ⟨⟨settled, rfl, before, some_, unread⟩, bytes⟩ := standing
        by_cases gap : tornLineGap J line = some held.bytes
        · rw [bytes] at gap
          simpa [Standing, empty, parsed, heldIs, bytes, gap] using before.torn some_ unread empty parsed gap
        · simp [empty, parsed, heldIs, gap] at next
      | none =>
        rw [heldIs] at standing
        simpa [Standing, empty, parsed, heldIs] using standing.record empty parsed
    | none =>
      cases heldIs : s.held with
      | some held => simp [empty, parsed, heldIs] at next
      | none =>
        rw [heldIs] at standing
        simp only [Standing, Bool.false_eq_true, if_false]
        exact ⟨⟨lines, rfl, standing, empty, parsed⟩, trivial⟩

theorem scanLines_failed (numbered : Bool) {s : Scan} {fault : Fault} (failed : s.fault = some fault) (lines : List Bytes) :
    scanLines J numbered s lines = s := by
  cases lines with
  | nil => rfl
  | cons line lines => rw [scanLines, if_pos (by rw [failed]; rfl)]

theorem blank_unread {bytes : Bytes} (empty : blank bytes = true) : J.fromSlice bytes = none := by
  induction bytes with
  | nil =>
    apply J.read_cut [] [] List.nil_prefix
    rw [write]
    simp
  | cons b bytes ih =>
    simp only [blank, List.all_cons, Bool.and_eq_true] at empty
    obtain ⟨space, rest⟩ := empty
    cases json : isSpace b with
    | true => rw [J.read_space b bytes json, ih rest]
    | false =>
      apply J.read_stray b bytes json
      simp only [isAsciiWhitespace, Bool.or_eq_true, beq_iff_eq] at space
      rcases space with (((rfl | rfl) | rfl) | rfl) | rfl
      all_goals rfl

theorem scanLine_cursor {numbered : Bool} (s : Scan) (line : Bytes) :
    (scanLine J numbered s line).cursor = ⟨s.cursor.offset + (line.length + 1), s.cursor.line + 1⟩ := by
  unfold scanLine
  dsimp only
  repeat' split
  all_goals rfl

theorem scanLines_cursor {numbered : Bool} (s : Scan) (lines : List Bytes) (ok : (scanLines J numbered s lines).fault = none) :
    (scanLines J numbered s lines).cursor = ⟨s.cursor.offset + (joinLines lines).length, s.cursor.line + lines.length⟩ := by
  induction lines generalizing s with
  | nil => rfl
  | cons line lines ih =>
    rw [scanLines] at ok ⊢
    split at ok
    · rename_i failed
      rw [ok] at failed
      cases failed
    · rename_i going
      rw [if_neg going, ih _ ok, scanLine_cursor]
      simp only [joinLines_cons, List.length_append, List.length_cons, LogPosition.mk.injEq]
      omega

theorem scanLines_standing (numbered : Bool) (lines : List Bytes) {s : Scan} (held : s.held = none)
    (records : s.records = []) (next : (scanLines J numbered s lines).fault = none) :
    Standing J lines (scanLines J numbered s lines) := by
  induction lines using List.reverseRecOn with
  | nil => simpa [Standing, scanLines, held, records] using Settled.nil
  | append_singleton lines line ih =>
    rw [scanLines_append] at next ⊢
    cases before : (scanLines J numbered s lines).fault with
    | some fault =>
      rw [scanLines_failed numbered before, before] at next
      cases next
    | none =>
      rw [scanLines_one numbered before] at next ⊢
      exact scanLine_standing (ih before) next

theorem settled_scanLines (numbered : Bool) {lines : List Bytes} {records : List Value}
    (settled : Settled J lines records) {s : Scan}
    (ok : s.fault = none) (held : s.held = none) :
    (scanLines J numbered s lines).fault = none ∧ (scanLines J numbered s lines).held = none ∧
      (scanLines J numbered s lines).records.map Prod.fst = s.records.map Prod.fst ++ records := by
  induction settled with
  | nil => simp [scanLines, ok, held]
  | blank _ empty ih =>
    obtain ⟨okBefore, heldBefore, same⟩ := ih
    rw [scanLines_append, scanLines_one numbered okBefore]
    simp [scanLine, empty, heldBefore, okBefore, same]
  | record _ some_ parsed ih =>
    obtain ⟨okBefore, heldBefore, same⟩ := ih
    rw [scanLines_append, scanLines_one numbered okBefore]
    simp [scanLine, some_, parsed, heldBefore, okBefore, same]
  | torn _ some_ unread gapSome parsed gap ih =>
    obtain ⟨okBefore, heldBefore, same⟩ := ih
    rw [scanLines_append]
    simp [scanLines, scanLine, some_, unread, gapSome, parsed, gap, heldBefore, okBefore, same]

theorem snoc_split {α : Type*} {lines before after : List α} {line : α} (split : lines ++ [line] = before ++ after) :
    after = [] ∨ ∃ front, after = front ++ [line] ∧ lines = before ++ front := by
  rcases List.eq_nil_or_concat after with rfl | ⟨front, last, rfl⟩
  · exact Or.inl rfl
  · rw [List.concat_eq_append, ← List.append_assoc] at split
    obtain ⟨first, same⟩ := List.append_inj' split rfl
    obtain rfl := List.singleton_inj.mp same
    exact Or.inr ⟨front, List.concat_eq_append, first⟩

theorem Settled.drop {lines before after : List Bytes} {records : List Value} (settled : Settled J lines records)
    (split : lines = before ++ after) : ∃ records, Settled J after records := by
  induction settled generalizing after with
  | nil =>
    obtain ⟨_, rfl⟩ := List.append_eq_nil_iff.mp split.symm
    exact ⟨[], .nil⟩
  | blank _ white ih =>
    rcases snoc_split split with rfl | ⟨front, rfl, first⟩
    · exact ⟨[], .nil⟩
    · obtain ⟨records, settled⟩ := ih first
      exact ⟨records, settled.blank white⟩
  | record _ dark reads ih =>
    rcases snoc_split split with rfl | ⟨front, rfl, first⟩
    · exact ⟨[], .nil⟩
    · obtain ⟨records, settled⟩ := ih first
      exact ⟨_, settled.record dark reads⟩
  | torn _ dark unread some_ reads marks ih =>
    rw [List.append_cons] at split
    rcases snoc_split split with rfl | ⟨front, rfl, first⟩
    · exact ⟨[], .nil⟩
    · rcases snoc_split first with rfl | ⟨front, rfl, earlier⟩
      · exact ⟨_, Settled.nil.record some_ reads⟩
      · obtain ⟨records, settled⟩ := ih earlier
        have whole := settled.torn dark unread some_ reads marks
        exact ⟨_, by rwa [List.append_assoc]⟩

theorem scanEnd_failed {s : Scan} {fault : Fault} (failed : s.fault = some fault) : scanEnd s = s := by
  simp [scanEnd, failed]

theorem scanEnd_settled {s : Scan} (held : s.held = none) : scanEnd s = s := by
  unfold scanEnd
  rw [held]
  split
  · rename_i impossible
    cases impossible
  · rfl

theorem scanEnd_ok {s : Scan} (ok : (scanEnd s).fault = none) : s.fault = none ∧ s.held = none := by
  unfold scanEnd at ok
  cases failed : s.fault with
  | some fault => simp [failed] at ok
  | none =>
    cases held : s.held with
    | some line => simp [failed, held] at ok
    | none => exact ⟨rfl, rfl⟩

theorem scanLines_settled {numbered : Bool} {lines : List Bytes} {s : Scan} (held : s.held = none)
    (records : s.records = []) (ok : (scanEnd (scanLines J numbered s lines)).fault = none) :
    Settled J lines ((scanEnd (scanLines J numbered s lines)).records.map Prod.fst) := by
  obtain ⟨through, nothing⟩ := scanEnd_ok ok
  have standing := scanLines_standing numbered lines held records through
  rw [Standing, nothing] at standing
  rw [scanEnd_settled nothing]
  exact standing

section

variable {file : Bytes}

theorem scan_terminated (from_ : LogPosition) (terminated : Terminated (file.drop from_.offset)) (tail : TornTail)
    (clock : Clock) :
    scan J file from_ tail clock =
      (scanEnd (scanLines J (from_.offset == 0 || 0 < from_.line) (.start from_)
        (splitLines (file.drop from_.offset)).1)).scanned file := by
  unfold Terminated at terminated
  unfold scan
  dsimp only
  split
  · rename_i failed
    obtain ⟨fault, failed⟩ := Option.isSome_iff_exists.mp failed
    rw [scanEnd_failed failed]
  · rfl

theorem scan_refuse (J : Reader) (from_ : LogPosition) (torn : ¬Terminated (file.drop from_.offset)) (clock : Clock) :
    (scan J file from_ .refuse clock).fault.isSome := by
  unfold Terminated at torn
  unfold scan
  dsimp only
  split
  · assumption
  · rfl

end

theorem read_ok_iff {file : Bytes} {records : List Value} :
    read J file = .ok records ↔ Terminated file ∧ Settled J (splitLines file).1 records := by
  have whole : read J file = .ok records ↔ (scan J file default .refuse ⟨"", "", ""⟩).fault = none ∧
      (scan J file default .refuse ⟨"", "", ""⟩).records.map Prod.fst = records := by
    unfold read readWith
    cases failed : (scan J file default .refuse ⟨"", "", ""⟩).fault <;> simp [failed, Except.map]
  rw [whole]
  by_cases terminated : Terminated file
  · have same := scan_terminated (J := J) default terminated .refuse ⟨"", "", ""⟩
    rw [same]
    constructor
    · rintro ⟨ok, rfl⟩
      exact ⟨terminated, scanLines_settled rfl rfl ok⟩
    · rintro ⟨_, settled⟩
      obtain ⟨ok, held, records⟩ := settled_scanLines true settled (s := .start default) rfl rfl
      have ends := scanEnd_settled held
      exact ⟨(congrArg Scan.fault ends).trans ok, (congrArg (fun s => s.records.map Prod.fst) ends).trans records⟩
  · constructor
    · rintro ⟨ok, _⟩
      have failed := scan_refuse J default terminated ⟨"", "", ""⟩
      rw [ok] at failed
      cases failed
    · rintro ⟨impossible, _⟩
      exact (terminated impossible).elim

end CommonMeasure.Evidence
