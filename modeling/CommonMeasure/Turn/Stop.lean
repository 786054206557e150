import CommonMeasure.Turn.Entered

/-!
# What a `Stop` submits

A `Stop` reads the transcript and submits, for each call the log is owed, what its request carried and what its answer
cited.
-/

namespace CommonMeasure.Turn

open Json

section

variable {Uuid Path : Type} [DecidableEq Uuid] [DecidableEq Path] (L : Libraries Uuid Path) (host : Host Uuid Path)

def MAX_ASSOCIATIONS : Nat := 1024

structure OpenedLog (Uuid : Type) where
  started_at : Int
  admitted : Uuid → Bool
  associated : Uuid → Bool
  completed : Uuid → Bool

inductive Observation (Uuid : Type) where
  | context_entered (acquisition generation : Uuid) (representation_hash : String)
  | output_associated (generation output : Uuid) (output_hash : String) (acquisitions : List Uuid)
  deriving DecidableEq

def Observation.subject : Observation Uuid → Option Uuid
  | .context_entered acquisition _ _ => some acquisition
  | .output_associated .. => none

def owed (log : OpenedLog Uuid) (g : Generation Uuid) : Bool :=
  g.started_at.any (fun at_ => log.started_at ≤ at_) && !log.completed g.generation_id

def observations (log : OpenedLog Uuid) (g : Generation Uuid) : List (Observation Uuid) :=
  (if log.associated g.generation_id then []
    else (g.entered.filter fun e => log.admitted e.1).map fun e => .context_entered e.1 g.generation_id e.2) ++
    [.output_associated g.generation_id g.output_id g.output_hash (g.cited.take MAX_ASSOCIATIONS)]

inductive Answer where
  | recorded | refused | unavailable

def submit {α : Type} (answers : Nat → Answer) : Nat → List α → List α
  | _, [] => []
  | n, observation :: more =>
    observation :: match answers n with
      | .unavailable => []
      | .recorded | .refused => submit answers (n + 1) more

/-- What one `Stop` submits to one log, each under its message's id. -/
def record_claude_turn (log : OpenedLog Uuid) (answers : Nat → Answer) (transcript : List Line) :
    List (String × Observation Uuid) :=
  submit answers 0 (((readings L host transcript).filter fun r => owed log r.2).flatMap fun r =>
    (observations log r.2).map fun o => (r.1, o))

theorem submit_sublist {α : Type} (answers : Nat → Answer) (n : Nat) (all : List α) : (submit answers n all).Sublist all := by
  induction all generalizing n with
  | nil => exact .refl _
  | cons a all ih =>
    rw [submit]
    refine .cons_cons a ?_
    split
    · exact List.nil_sublist _
    · exact ih _
    · exact ih _

variable {L host}

theorem submitted {log : OpenedLog Uuid} {answers : Nat → Answer} {transcript : List Line} {id : String} {o : Observation Uuid}
    (listed : (id, o) ∈ record_claude_turn L host log answers transcript) :
    ∃ g, (id, g) ∈ readings L host transcript ∧ o ∈ observations log g := by
  have among := (submit_sublist _ _ _).subset listed
  obtain ⟨⟨id', g⟩, owed_, made⟩ := List.mem_flatMap.mp among
  obtain ⟨o', named, same⟩ := List.mem_map.mp made
  obtain ⟨rfl, rfl⟩ := Prod.mk.inj same
  exact ⟨g, List.mem_of_mem_filter owed_, named⟩

omit [DecidableEq Uuid] in
theorem observations_one {log log' : OpenedLog Uuid} {g : Generation Uuid} (once : (g.entered.map Prod.fst).Nodup)
    {o o' : Observation Uuid} (listed : o ∈ observations log g) (listed' : o' ∈ observations log' g)
    (same : o.subject = o'.subject) : o = o' := by
  have cases_ : ∀ {log : OpenedLog Uuid} {o}, o ∈ observations log g →
      (∃ e ∈ g.entered, o = .context_entered e.1 g.generation_id e.2) ∨
        o = .output_associated g.generation_id g.output_id g.output_hash (g.cited.take MAX_ASSOCIATIONS) := by
    intro log o listed
    obtain entry | output := List.mem_append.mp listed
    · split at entry
      · cases entry
      · obtain ⟨e, carried, rfl⟩ := List.mem_map.mp entry
        exact .inl ⟨e, List.mem_of_mem_filter carried, rfl⟩
    · exact .inr (List.mem_singleton.mp output)
  obtain ⟨e, carried, rfl⟩ | rfl := cases_ listed <;> obtain ⟨e', carried', rfl⟩ | rfl := cases_ listed'
  · have one := List.inj_on_of_nodup_map once carried carried' (Option.some.inj same)
    rw [one]
  · cases same
  · cases same
  · rfl

structure Stable (L : Libraries Uuid Path) (host : Host Uuid Path) (transcript more : List Line) : Prop where
  kept : ∀ i id g, (readings L host transcript)[i]? = some (id, g) → (∀ line ∈ more, ¬line.carries L id) →
    (readings L host (transcript ++ more))[i]? = some (id, g) ∨
      (read_claude_transcript L host transcript).damaged_line = none ∧
        (read_claude_transcript L host (transcript ++ more)).damaged_line.isSome ∧
        i + 1 = (readings L host transcript).length ∧ (readings L host (transcript ++ more)).length = i
  entered : ∀ id g, (id, g) ∈ readings L host transcript →
    ∃ before line rest, transcript = before ++ line :: rest ∧ line.carries L id ∧ (∀ l ∈ before, ¬l.carries L id) ∧
      Enters L host before line g
  damaged : ∀ before line rest, transcript = before ++ line :: rest →
    (read_claude_transcript L host before).damaged_line = none → parse L line = .damaged →
    (read_claude_transcript L host transcript).generations = (read_claude_transcript L host before).generations.dropLast ∧
      (read_claude_transcript L host transcript).damaged_line = some (before.length + 1)
  submits : ∀ id, (∀ line ∈ more, ¬line.carries L id) → ∀ log answers log' answers' o o',
    (id, o) ∈ record_claude_turn L host log answers transcript →
    (id, o') ∈ record_claude_turn L host log' answers' (transcript ++ more) → o.subject = o'.subject → o = o'

theorem transcript_stable (L : Libraries Uuid Path) (host : Host Uuid Path) (transcript more : List Line) :
    Stable L host transcript more := by
  refine ⟨fun i id g read apart => readings_append read apart, fun id g listed => readings_enter listed, ?_, ?_⟩
  · rintro before line rest rfl whole bad
    obtain ⟨left, at_⟩ := readings_damaged whole bad rest
    refine ⟨?_, at_⟩
    show (readings L host (before ++ line :: rest)).map Prod.snd = ((readings L host before).map Prod.snd).dropLast
    rw [left, List.map_dropLast]
  · intro id apart log answers log' answers' o o' first second same
    obtain ⟨g, listed, named⟩ := submitted first
    obtain ⟨g', listed', named'⟩ := submitted second
    obtain ⟨call, held, rfl⟩ := mem_readings listed
    obtain ⟨call', held', rfl⟩ := mem_readings listed'
    obtain ⟨kept, alike⟩ := generation_kept held apart
    rw [kept] at held'
    cases held'
    rw [← alike] at named'
    obtain ⟨_, _, _, _, _, _, enters⟩ := readings_enter listed
    exact observations_one enters.once named named' same

end

def sampleText (text : String) : Value := .object [("type", .string "text"), ("text", .string text)]

def sampleLine (text : String) : Value :=
  .object [("type", .string "assistant"), ("timestamp", .string "t"), ("message", .object [("id", .string "m"),
    ("content", .array [sampleText text])])]

def sampleLibraries : Libraries Hyphenated String where
  uuids := hyphenated
  new_v5 _ := ⟨List.replicate 32 0, rfl⟩
  path := id
  from_str text := if text = "one" ∨ text = "two" then some (sampleLine text) else none
  sha256_digest := spelled
  write_number := id
  base64_decode _ := none
  parse_from_rfc3339 _ := some 0
  parse_url _ := none

def sampleHost : Host Hyphenated String := ⟨"session", fun _ => none, fun _ => none⟩

def sampleOutput (texts : List String) : Observation Hyphenated :=
  .output_associated (sampleLibraries.new_v5 "") (sampleLibraries.new_v5 "")
    (canonical_digest sampleLibraries (.array (texts.map sampleText))) []

def sampleLog : OpenedLog Hyphenated := ⟨0, fun _ => false, fun _ => false, fun _ => false⟩

/-- A damaged line after a call leaves it out, and a line of its answer submits another output for it. -/
theorem generation_lost :
    (read_claude_transcript sampleLibraries sampleHost [some "one"]).generations.length = 1 ∧
      ¬Line.carries sampleLibraries (some "damage") "m" ∧
      (read_claude_transcript sampleLibraries sampleHost [some "one", some "damage"]).generations.length = 0 ∧
    ∃ o o', ("m", o) ∈ record_claude_turn sampleLibraries sampleHost sampleLog (fun _ => .recorded) [some "one"] ∧
      ("m", o') ∈ record_claude_turn sampleLibraries sampleHost sampleLog (fun _ => .recorded) [some "one", some "two"] ∧
      o.subject = o'.subject ∧ o ≠ o' := by
  refine ⟨by decide, ?_, by decide, ?_⟩
  · rintro ⟨value, parsed, _⟩
    cases parsed
  · exact ⟨sampleOutput ["one"], sampleOutput ["one", "two"], by decide, by decide, rfl, by decide⟩

end CommonMeasure.Turn
