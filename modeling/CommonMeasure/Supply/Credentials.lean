import CommonMeasure.Foundation.Cuts
import CommonMeasure.Supply.Fetch

/-!
# The credentials file

`KEY=VALUE` lines, the reader of the whole file and the edit of one variable of it.
-/

namespace CommonMeasure.Supply.Credentials

def MAX_VALUE_BYTES : Nat := 4096

def unterminated (line : List Char) : List Char :=
  if line.getLast? = some '\n' then
    let bare := line.dropLast
    if bare.getLast? = some '\r' then bare.dropLast else bare
  else line

def lines (text : List Char) : List (List Char) := (splitInclusive '\n' text).map unterminated

def split_once (line : List Char) : Option (List Char × List Char) :=
  if '=' ∈ line then some (line.takeWhile (· ≠ '='), (line.dropWhile (· ≠ '=')).drop 1) else none

def exported (line : List Char) : List Char :=
  trimStart (if "export ".toList.isPrefixOf line then line.drop 7 else line)

def isNameChar (c : Char) : Bool := c.isAlphanum || c = '_'

def unquote (value : List Char) : List Char :=
  match value with
  | first :: second :: rest =>
    if (first = '"' || first = '\'') && (second :: rest).getLast? = some first then (second :: rest).dropLast else value
  | _ => value

inductive Line where
  | skipped
  | shapeless
  | unnamed
  | nul
  | unrendered (name : List Char)
  | assigned (name value : List Char)
deriving DecidableEq

def read_line (raw : List Char) : Line :=
  let line := trim raw
  if line = [] ∨ line.head? = some '#' then .skipped
  else match split_once (exported line) with
    | none => .shapeless
    | some (name, value) =>
      let name := trim name
      if name = [] ∨ ¬ name.all isNameChar then .unnamed
      else
        let value := unquote (trim value)
        if Char.ofNat 0 ∈ value then .nul
        else if "gopass:".toList.isPrefixOf value then .unrendered name
        else .assigned name value

def store (name value : List Char) : List (List Char × List Char) → List (List Char × List Char)
  | [] => [(name, value)]
  | (entry, held) :: rest => if entry = name then (entry, value) :: rest else (entry, held) :: store name value rest

def parse_lines (path : String) : Nat → List (List Char × List Char) → List (List Char) →
    Except String (List (List Char × List Char))
  | _, entries, [] => .ok entries
  | index, entries, raw :: rest =>
    match read_line raw with
    | .skipped => parse_lines path (index + 1) entries rest
    | .shapeless => .error (path ++ " line " ++ toString (index + 1) ++ " is not KEY=VALUE")
    | .unnamed => .error (path ++ " line " ++ toString (index + 1) ++ " does not name a variable")
    | .nul => .error (path ++ " line " ++ toString (index + 1) ++ " contains a NUL character")
    | .unrendered name => .error (path ++ " sets " ++ String.ofList name ++
        " to an unrendered secret reference (gopass:…). Render the template (for example with gopass) so the file holds " ++
        "the credential itself.")
    | .assigned name value =>
      parse_lines path (index + 1) (if value = [] then entries else store name value entries) rest

def parse (text : List Char) (path : String) : Except String (List (List Char × List Char)) :=
  parse_lines path 0 [] (lines text)

def held (entries : List (List Char × List Char)) (name : List Char) : Option (List Char) :=
  (entries.find? (·.1 = name)).map Prod.snd

structure Edited where
  text : List Char
  changed : Bool
deriving DecidableEq

def assigns (line name : List Char) : Bool :=
  let line := trim line
  if line = [] ∨ line.head? = some '#' then false
  else match split_once (exported line) with
    | none => false
    | some (assigned, _) => trim assigned = name

def isEnding (c : Char) : Bool := c = '\r' || c = '\n'

def assignment (name value : List Char) : List Char := name ++ '=' :: value

def edit_lines (name : List Char) (value : Option (List Char)) : Bool → List (List Char) → List (List Char) × Bool
  | written, [] => ([], written)
  | written, line :: rest =>
    if assigns line name then
      match value, written with
      | some value, false =>
        let ending := line.rtakeWhile isEnding
        let later := edit_lines name (some value) true rest
        ((assignment name value ++ if ending = [] then ['\n'] else ending) :: later.1, later.2)
      | _, _ => edit_lines name value written rest
    else
      let later := edit_lines name value written rest
      (line :: later.1, later.2)

def appended (name value edited : List Char) : List Char :=
  edited ++ (if edited ≠ [] ∧ edited.getLast? ≠ some '\n' then ['\n'] else []) ++ assignment name value ++ ['\n']

def edited_text (text name : List Char) (value : Option (List Char)) : List Char :=
  let (pieces, written) := edit_lines name value false (splitInclusive '\n' text)
  match value, written with
  | some value, false => appended name value pieces.flatten
  | _, _ => pieces.flatten

def checked : Option (List Char) → Except String (Option (List Char))
  | none => .ok none
  | some value =>
    let value := trim value
    if value = [] then .error "the key is empty"
    else if MAX_VALUE_BYTES < byteLen value then .error ("the key is longer than " ++ toString MAX_VALUE_BYTES ++ " bytes")
    else if value.any isControl then .error "the key contains a line break or another control character"
    else .ok (some value)

def misread (name : List Char) : Option (List Char) → String
  | some _ => "the key would not read back as entered; enter it without surrounding quotes or spaces"
  | none => String.ofList name ++ " would still be set after removing it"

def edit_text (text name : List Char) (value : Option (List Char)) (path : String) : Except String Edited := do
  let value ← checked value
  let _ ← (parse text path).mapError (· ++ "; repair the file first")
  let edited := edited_text text name value
  let entries ← parse edited path
  if held entries name ≠ value then
    .error (misread name value)
  else .ok ⟨edited, edited ≠ text⟩

variable {path : String} {name value raw line : List Char} {entries : List (List Char × List Char)}

def read_of (raw : List Char) : Option (List Char × List Char) :=
  match read_line raw with
  | .assigned name value => some (name, value)
  | _ => none

def Read (raw : List Char) : Prop := read_line raw = .skipped ∨ ∃ name value, read_line raw = .assigned name value

theorem split_once_some {front after : List Char} (plain : '=' ∉ front) :
    split_once (front ++ '=' :: after) = some (front, after) := by
  have before : ∀ c ∈ front, (decide (c ≠ '=')) = true := by
    intro c member
    simp only [decide_eq_true_eq]
    rintro rfl
    exact plain member
  rw [split_once, if_pos (by simp), List.takeWhile_append_of_pos before, List.dropWhile_append_of_pos before]
  simp

theorem assigns_iff (read : Read raw) : assigns raw name = true ↔ ∃ value, read_line raw = .assigned name value := by
  unfold assigns
  unfold Read read_line at *
  dsimp only at *
  split at read
  · rename_i blank
    rw [if_pos blank, if_pos blank]
    exact ⟨fun h => (Bool.false_ne_true h).elim, fun ⟨_, same⟩ => by cases same⟩
  · rename_i some_
    rw [if_neg some_, if_neg some_]
    split at read
    · rcases read with same | ⟨_, _, same⟩ <;> cases same
    · rename_i assigned value split
      split at read
      · rcases read with same | ⟨_, _, same⟩ <;> cases same
      · rename_i named
        split at read
        · rcases read with same | ⟨_, _, same⟩ <;> cases same
        · rename_i plain
          split at read
          · rcases read with same | ⟨_, _, same⟩ <;> cases same
          · rename_i rendered
            rw [if_neg named, if_neg plain, if_neg rendered, decide_eq_true_eq]
            constructor
            · rintro rfl
              exact ⟨_, rfl⟩
            · rintro ⟨_, same⟩
              cases same
              rfl

theorem read_of_name (read : Read raw) : (∃ value, read_of raw = some (name, value)) ↔ assigns raw name = true := by
  rw [assigns_iff read]
  unfold read_of
  constructor
  · rintro ⟨value, found⟩
    split at found
    · rename_i first second same
      cases found
      exact ⟨value, same⟩
    · cases found
  · rintro ⟨value, same⟩
    exact ⟨value, by rw [same]⟩

theorem held_store (name value other : List Char) (entries : List (List Char × List Char)) :
    held (store name value entries) other = if other = name then some value else held entries other := by
  unfold held
  induction entries with
  | nil =>
    by_cases same : name = other
    · simp [store, same]
    · simp [store, same, Ne.symm same]
  | cons entry rest ih =>
    obtain ⟨first, kept⟩ := entry
    rw [store]
    by_cases here : first = name
    · rw [if_pos here]
      subst here
      by_cases same : first = other
      · simp [same]
      · simp [same, Ne.symm same]
    · rw [if_neg here]
      by_cases same : first = other
      · subst same
        simp [here]
      · simpa [same] using ih

def valuesOf (name : List Char) (raws : List (List Char)) : List (List Char) :=
  (raws.filterMap read_of).filterMap fun (assigned, value) => if assigned = name ∧ value ≠ [] then some value else none

theorem valuesOf_cons (raw : List Char) (raws : List (List Char)) :
    valuesOf name (raw :: raws) = valuesOf name [raw] ++ valuesOf name raws := by
  simp only [valuesOf, ← List.filterMap_append, List.singleton_append]

theorem parse_lines_ok (index : Nat) (raws : List (List Char)) :
    (∃ after, parse_lines path index entries raws = .ok after) ↔ ∀ raw ∈ raws, Read raw := by
  induction raws generalizing index entries with
  | nil => simp [parse_lines]
  | cons raw raws ih =>
    rw [parse_lines, List.forall_mem_cons, Read]
    cases line : read_line raw <;> simp [ih]

theorem parse_lines_held {index : Nat} {raws : List (List Char)} {after : List (List Char × List Char)}
    (parsed : parse_lines path index entries raws = .ok after) (name : List Char) :
    held after name = ((valuesOf name raws).getLast?).or (held entries name) := by
  induction raws generalizing index entries with
  | nil =>
    rw [parse_lines] at parsed
    cases parsed
    simp [valuesOf]
  | cons raw raws ih =>
    rw [parse_lines] at parsed
    rw [valuesOf_cons, List.getLast?_append]
    cases line : read_line raw with
    | skipped =>
      rw [line] at parsed
      simp [ih parsed, valuesOf, read_of, line]
    | assigned variable_ value =>
      rw [line] at parsed
      rw [ih parsed]
      by_cases empty : value = []
      · simp [empty, valuesOf, read_of, line]
      · rw [if_neg empty, held_store]
        by_cases same : variable_ = name
        · simp [same, empty, valuesOf, read_of, line]
        · simp [same, Ne.symm same, valuesOf, read_of, line]
    | _ => rw [line] at parsed; cases parsed

theorem parse_ok {text : List Char} : (∃ entries, parse text path = .ok entries) ↔ ∀ raw ∈ lines text, Read raw :=
  parse_lines_ok 0 (lines text)

theorem parse_held {text : List Char} (parsed : parse text path = .ok entries) (name : List Char) :
    held entries name = (valuesOf name (lines text)).getLast? := by
  rw [parse_lines_held parsed]
  simp [held]

end CommonMeasure.Supply.Credentials
